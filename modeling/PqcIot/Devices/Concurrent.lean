import PqcIot.Devices.Register
import PqcIot.Effects.Processes

/-!
# Several registrations at a time

Any number of runs of the remote program on one file, in any order of their operations, where each
may be killed between two of them. The file is replaced in two operations, and what is written was
read before: a run may undo what another has registered meanwhile, and a run that is killed in
between leaves an empty file.

* `registrations_lost` — both happen;
* `registrations_kept` — nothing is lost as long as each run still finds what it has read when it
  truncates the file, is not killed before it has written, and registers an id that no later key of
  the table overrides.
-/

namespace PqcIot

open Effects Protocol Text

namespace Devices

variable {ι μ : Type}

/-- A run of the remote program. -/
abbrev Registration : Type := Process remoteOps (Except TableExn (List Char))

/-- The file and the runs on it. -/
abbrev Registrations (ι : Type) : Type := Processes remoteOps Disk ι (Except TableExn (List Char))

/-! ## How far a run is -/

/-- How far a run is. -/
inductive Stage where
  | begun
  /-- It has read these bytes, and may have failed on them. -/
  | read (bytes : ByteArray)
  /-- It has truncated the file, after it read these bytes. -/
  | opened (bytes : ByteArray)
  | written

section At

variable {limit : ℕ} {deviceId psk : List UInt8}

/-- A run at some stage. -/
inductive At (limit : ℕ) (deviceId psk : List UInt8) : Stage → Registration → Prop
  | start {killed : Bool} : At limit deviceId psk .begun
      ⟨[], (remoteProgram limit (registration deviceId psk)).run, killed⟩
  | found {k : Option ByteArray → Prog remoteOps (Except TableExn (List Char))} {killed : Bool} :
      (∀ bytes, k (some bytes) = store (revise limit deviceId psk bytes)) →
        At limit deviceId psk .begun ⟨[⟨.pathExists, true⟩], .op .readText k, killed⟩
  | read (bytes : ByteArray) {killed : Bool} : At limit deviceId psk (.read bytes)
      ⟨[⟨.pathExists, true⟩, ⟨.readText, some bytes⟩],
        store (revise limit deviceId psk bytes), killed⟩
  | opened {bytes : ByteArray} {table : Json} {report : List Char} {log : List (Event remoteOps)}
      {k : Option Unit → Prog remoteOps (Except TableExn (List Char))} {killed : Bool} :
      revise limit deviceId psk bytes = .ok (table, report) →
      (∃ k', k (some ()) = .op (.chmod 0o600) k' ∧ k' (some ()) = .ret (.ok report)) →
        At limit deviceId psk (.opened bytes) ⟨log, .op (.writeText (tableText table)) k, killed⟩
  | written {report : List Char} {log : List (Event remoteOps)}
      {k : Option Unit → Prog remoteOps (Except TableExn (List Char))} {killed : Bool} :
      k (some ()) = .ret (.ok report) →
        At limit deviceId psk .written ⟨log, .op (.chmod 0o600) k, killed⟩
  | done {report : List Char} {log : List (Event remoteOps)} {killed : Bool} :
      At limit deviceId psk .written ⟨log, .ret (.ok report), killed⟩

/-- A kill leaves a run where it is. -/
theorem At.kill {stage : Stage} {p : Registration} (h : At limit deviceId psk stage p) :
    At limit deviceId psk stage { p with killed := true } := by
  cases h with
  | start => exact .start
  | found hk => exact .found hk
  | read bytes => exact .read bytes
  | opened hrevise hk => exact .opened hrevise hk
  | written hk => exact .written hk
  | done => exact .done

/-- What the next operation of a run does, on a file that exists. -/
theorem At.op_cases {stage : Stage} {log : List (Event remoteOps)} {o : RemoteOp}
    {k : o.Ans → Prog remoteOps (Except TableExn (List Char))} {file : Disk} {bytes : ByteArray}
    (h : At limit deviceId psk stage ⟨log, .op o k, false⟩) (hcontent : file.content = some bytes) :
    (stage = .begun ∧ disk.next file o = file ∧ ∃ stage', (stage' = .begun ∨ stage' = .read bytes) ∧
      At limit deviceId psk stage'
        ⟨log ++ [⟨o, disk.answer file o⟩], k (disk.answer file o), false⟩) ∨
    (∃ read table, stage = .read read ∧ ⟨.readText, some read⟩ ∈ log ∧
      (∃ report, revise limit deviceId psk read = .ok (table, report)) ∧ o = .truncate ∧
        disk.next file o = ⟨some .empty, file.mode⟩ ∧ At limit deviceId psk (.opened read)
          ⟨log ++ [⟨o, disk.answer file o⟩], k (disk.answer file o), false⟩) ∨
    (∃ read table, stage = .opened read ∧
      (∃ report, revise limit deviceId psk read = .ok (table, report)) ∧
        disk.next file o = ⟨some (overwrite bytes (tableText table)), file.mode⟩ ∧
          At limit deviceId psk .written
            ⟨log ++ [⟨o, disk.answer file o⟩], k (disk.answer file o), false⟩) ∨
    (stage = .written ∧ disk.next file o = ⟨some bytes, 0o600⟩ ∧ At limit deviceId psk .written
      ⟨log ++ [⟨o, disk.answer file o⟩], k (disk.answer file o), false⟩) := by
  -- By the stage, which says what the run does next.
  obtain ⟨content, mode⟩ := file
  obtain rfl : content = some bytes := hcontent
  generalize hrest : (.op o k : Prog remoteOps (Except TableExn (List Char))) = rest at h
  cases h with
  | start =>
    rw [run_remoteProgram] at hrest
    cases hrest
    exact .inl ⟨rfl, rfl, .begun, .inl rfl, .found fun _ => rfl⟩
  | found hk =>
    cases hrest
    refine .inl ⟨rfl, rfl, .read bytes, .inr rfl, ?_⟩
    have hread : At limit deviceId psk (.read bytes) ⟨_, _, false⟩ := .read bytes
    rw [← hk] at hread
    exact hread
  | read read =>
    cases hrevise : revise limit deviceId psk read with
    | error e =>
      rw [hrevise] at hrest
      cases hrest
    | ok result =>
      obtain ⟨table, report⟩ := result
      rw [hrevise] at hrest
      cases hrest
      refine .inr (.inl ⟨read, table, rfl, by simp, ⟨report, hrevise⟩, rfl, rfl, ?_⟩)
      exact .opened hrevise ⟨_, rfl, rfl⟩
  | @opened read table report _ k₀ _ hrevise hk =>
    cases hrest
    obtain ⟨k', hk, hk'⟩ := hk
    refine .inr (.inr (.inl ⟨read, table, rfl, ⟨report, hrevise⟩, rfl, ?_⟩))
    show At limit deviceId psk .written ⟨_, k₀ (some ()), false⟩
    rw [hk]
    exact .written hk'
  | @written _ _ k₀ _ hk =>
    cases hrest
    refine .inr (.inr (.inr ⟨rfl, rfl, ?_⟩))
    show At limit deviceId psk .written ⟨_, k₀ (some ()), false⟩
    rw [hk]
    exact .done
  | done => cases hrest

end At

/-! ## All runs -/

section Runs

variable (limit : ℕ) (deviceId psk : ι → List UInt8)

/-- The runs before any has begun. -/
def begin (file : Disk) : Registrations ι :=
  .start file fun i => (remoteProgram limit (registration (deviceId i) (psk i))).run

/-- A step that is no threat: a run truncates the file only while it still is what the run has read,
and its id is not overridden there; and a run is not killed between truncating and writing. -/
def Careful (s : Registrations ι) : ι × Action → Prop
  | (i, .op) => ∀ k, (s.procs i).rest = .op .truncate k →
      ∀ bytes, ⟨.readText, some bytes⟩ ∈ (s.procs i).log →
        s.state.content = some bytes ∧ ¬ Overridden limit bytes (deviceId i) (psk i)
  | (i, .kill) => ∀ bytes k, (s.procs i).rest ≠ .op (.writeText bytes) k

variable {limit}

/-- The table that is due: the old one, with the devices of the runs that have written. -/
structure Due (old : Psks) (stage : ι → Stage) (psks : Psks) : Prop where
  other : ∀ d, (∀ i, deviceId i ≠ d) → psks.entries.get d = old.entries.get d
  written : ∀ i, stage i = .written → psks.entries.get (deviceId i) = some (psk i)
  unwritten : ∀ i, stage i ≠ .written →
    psks.entries.get (deviceId i) = old.entries.get (deviceId i)

variable (limit)

/-- The file holds the table that is due, and no run has truncated it. -/
def Quiet (old : Psks) (stage : ι → Stage) (file : Disk) : Prop :=
  (∀ i read, stage i ≠ .opened read) ∧ ∃ bytes psks, file.content = some bytes ∧
    loadTable limit bytes = .ok psks ∧ Due deviceId psk old stage psks

/-- One run has truncated the file. It has read the table that is due, and will write. -/
def Busy (old : Psks) (stage : ι → Stage) (s : Registrations ι) : Prop :=
  ∃ i read psks, stage i = .opened read ∧ (s.procs i).killed = false ∧
    (∀ j, j ≠ i → ∀ read', stage j ≠ .opened read') ∧ s.state.content = some .empty ∧
      loadTable limit read = .ok psks ∧ Due deviceId psk old stage psks ∧
        ¬ Overridden limit read (deviceId i) (psk i)

/-- What holds between the steps. -/
structure Inv (old : Psks) (stage : ι → Stage) (s : Registrations ι) : Prop where
  at_stage : ∀ i, At limit (deviceId i) (psk i) (stage i) (s.procs i)
  mode : s.state.mode &&& 0o777 &&& 0o077 = 0
  file : Quiet limit deviceId psk old stage s.state ∨ Busy limit deviceId psk old stage s

end Runs

section Step

variable [DecidableEq ι] {limit : ℕ} {deviceId psk : ι → List UInt8} {old psks : Psks}
  {stage : ι → Stage} {s s' : Registrations ι}

/-- A stage that is neither before nor after writing more than it was. -/
theorem Due.update (h : Due deviceId psk old stage psks) {i : ι} {stage' : Stage}
    (hi : stage' = .written ↔ stage i = .written) :
    Due deviceId psk old (Function.update stage i stage') psks := by
  have hiff : ∀ j, Function.update stage i stage' j = .written ↔ stage j = .written := by
    intro j
    by_cases hj : j = i
    · rw [hj, Function.update_self, hi]
    · rw [Function.update_of_ne hj]
  exact ⟨h.other, fun j hj => h.written j ((hiff j).mp hj),
    fun j hj => h.unwritten j fun hw => hj ((hiff j).mpr hw)⟩

/-- One more run has written. -/
theorem Due.write (h : Due deviceId psk old stage psks) (hinj : Function.Injective deviceId) {i : ι}
    {psks' : Psks}
    (hother : ∀ d, d ≠ deviceId i → psks'.entries.get d = psks.entries.get d)
    (hself : psks'.entries.get (deviceId i) = some (psk i)) :
    Due deviceId psk old (Function.update stage i .written) psks' where
  other d hd := (hother d fun heq => hd i heq.symm).trans (h.other d hd)
  written j hj := by
    by_cases hji : j = i
    · rw [hji, hself]
    · rw [Function.update_of_ne hji] at hj
      rw [hother _ fun heq => hji (hinj heq), h.written j hj]
  unwritten j hj := by
    by_cases hji : j = i
    · rw [hji, Function.update_self] at hj
      exact absurd rfl hj
    · rw [Function.update_of_ne hji] at hj
      rw [hother _ fun heq => hji (hinj heq), h.unwritten j hj]

/-- An empty file is not JSON. -/
theorem revise_empty (deviceId psk : List UInt8) :
    revise limit deviceId psk .empty = .error .valueError := by
  have hempty : ByteArray.empty = encodeText [] := by decide
  rw [revise, hempty, decodeText_encodeText]
  rfl

/-- The run that takes a step is at its new stage, the others are where they were. -/
theorem at_update (h : ∀ j, At limit (deviceId j) (psk j) (stage j) (s.procs j)) {i : ι}
    {stage' : Stage} {p : Registration} (hp : At limit (deviceId i) (psk i) stage' p) (file : Disk)
    (j : ι) : At limit (deviceId j) (psk j) (Function.update stage i stage' j)
      ((s.set i file p).procs j) := by
  by_cases hj : j = i
  · subst hj
    rwa [Function.update_self, Processes.set_procs_self]
  · rw [Function.update_of_ne hj, Processes.set_procs_of_ne _ _ _ hj]
    exact h j

/-- A step of a run that neither truncates nor writes. -/
theorem Inv.unrelated (h : Inv limit deviceId psk old stage s) {i : ι} {stage' : Stage}
    {p : Registration} {file : Disk} (hp : At limit (deviceId i) (psk i) stage' p)
    (hi : ∀ read, stage i ≠ .opened read) (hi' : ∀ read, stage' ≠ .opened read)
    (hwritten : stage' = .written ↔ stage i = .written)
    (hcontent : file.content = s.state.content) (hmode : file.mode &&& 0o777 &&& 0o077 = 0) :
    Inv limit deviceId psk old (Function.update stage i stage') (s.set i file p) := by
  refine ⟨at_update h.at_stage hp file, hmode, h.file.imp ?_ ?_⟩
  · -- The file is whole, and stays so.
    rintro ⟨hclosed, bytes, psks, hbytes, hload, hdue⟩
    refine ⟨fun j read => ?_, bytes, psks, hcontent.trans hbytes, hload, hdue.update hwritten⟩
    by_cases hj : j = i
    · rw [hj, Function.update_self]
      exact hi' read
    · rw [Function.update_of_ne hj]
      exact hclosed j read
  · -- Some other run has truncated the file, and still has to write.
    rintro ⟨i₀, read, psks, hopened, hkilled, hclosed, hempty, hload, hdue, hover⟩
    have hne : i₀ ≠ i := fun heq => hi read (heq ▸ hopened)
    refine ⟨i₀, read, psks, ?_, ?_, fun j hj read' => ?_, hcontent.trans hempty, hload,
      hdue.update hwritten, hover⟩
    · rw [Function.update_of_ne hne, hopened]
    · rw [Processes.set_procs_of_ne _ _ _ hne, hkilled]
    · by_cases hji : j = i
      · rw [hji, Function.update_self]
        exact hi' read'
      · rw [Function.update_of_ne hji]
        exact hclosed j hj read'

/-- A run truncates the file that it has read. -/
theorem Inv.truncate (h : Inv limit deviceId psk old stage s) {i : ι} {read : ByteArray}
    {p : Registration} (hp : At limit (deviceId i) (psk i) (.opened read) p)
    (hkilled : p.killed = false) (hread : stage i = .read read)
    (hrevise : ∃ result, revise limit (deviceId i) (psk i) read = .ok result)
    (hcontent : s.state.content = some read)
    (hover : ¬ Overridden limit read (deviceId i) (psk i)) :
    Inv limit deviceId psk old (Function.update stage i (.opened read))
      (s.set i ⟨some .empty, s.state.mode⟩ p) := by
  refine ⟨at_update h.at_stage hp _, h.mode, .inr ?_⟩
  rcases h.file with ⟨hclosed, bytes, psks, hbytes, hload, hdue⟩ |
    ⟨i₀, read₀, psks, -, -, -, hempty, -⟩
  · -- The run has read what is there now, so that what it will write is up to date.
    obtain rfl : read = bytes := Option.some.inj (hcontent.symm.trans hbytes)
    have hwritten : Stage.opened read = .written ↔ stage i = .written := by
      rw [hread]
      exact iff_of_false nofun nofun
    refine ⟨i, read, psks, Function.update_self .., ?_, fun j hj read' => ?_, rfl, hload,
      hdue.update hwritten, hover⟩
    · rw [Processes.set_procs_self, hkilled]
    · rw [Function.update_of_ne hj]
      exact hclosed j read'
  · -- The file is empty, and no run gets this far after reading that.
    obtain rfl : read = .empty := Option.some.inj (hcontent.symm.trans hempty)
    obtain ⟨result, hrevise⟩ := hrevise
    cases (revise_empty _ _).symm.trans hrevise

/-- A run writes to the file that it has truncated. -/
theorem Inv.write (h : Inv limit deviceId psk old stage s) (hinj : Function.Injective deviceId)
    {i : ι} (hid : (deviceId i).length = deviceIdLen) (hpsk : (psk i).length = pskLen)
    {read bytes : ByteArray} {table : Json} {report : List Char} {p : Registration}
    (hp : At limit (deviceId i) (psk i) .written p) (hread : stage i = .opened read)
    (hrevise : revise limit (deviceId i) (psk i) read = .ok (table, report))
    (hcontent : s.state.content = some bytes) :
    Inv limit deviceId psk old (Function.update stage i .written)
      (s.set i ⟨some (overwrite bytes (tableText table)), s.state.mode⟩ p) := by
  refine ⟨at_update h.at_stage hp _, h.mode, .inl ?_⟩
  rcases h.file with ⟨hclosed, -⟩ | ⟨i₀, read₀, psks, hopened, -, hclosed, hempty,
    hload, hdue, hover⟩
  · -- Nobody has truncated the file.
    exact absurd hread (hclosed i read)
  · -- It is this run that has truncated the file.
    obtain rfl : i = i₀ := by
      by_contra hne
      exact hclosed i hne read hread
    obtain rfl : read = read₀ := Stage.opened.inj (hread.symm.trans hopened)
    obtain rfl : bytes = .empty := Option.some.inj (hcontent.symm.trans hempty)
    obtain ⟨table', report', psks', hrevise', hload', hother, hself⟩ :=
      loadTable_revise hload hid hpsk
    obtain rfl : table = table' := congrArg Prod.fst (Except.ok.inj (hrevise.symm.trans hrevise'))
    rw [overwrite_empty]
    refine ⟨fun j read' => ?_, _, psks', rfl, hload', hdue.write hinj hother (hself.mpr hover)⟩
    by_cases hj : j = i
    · rw [hj, Function.update_self]
      nofun
    · rw [Function.update_of_ne hj]
      exact hclosed j hj read'

/-- A run is killed. -/
theorem Inv.kill (h : Inv limit deviceId psk old stage s) {i : ι}
    (hcareful : Careful limit deviceId psk s (i, .kill)) :
    Inv limit deviceId psk old stage (s.set i s.state { s.procs i with killed := true }) := by
  have hat := at_update h.at_stage (h.at_stage i).kill s.state
  rw [Function.update_eq_self] at hat
  refine ⟨hat, h.mode, h.file.imp id ?_⟩
  rintro ⟨i₀, read, psks, hopened, hkilled, hrest⟩
  have hne : i₀ ≠ i := by
    rintro rfl
    -- The run is about to write.
    have hopen := h.at_stage i₀
    rw [hopened] at hopen
    generalize hproc : s.procs i₀ = p at hopen
    cases hopen with
    | opened => exact hcareful _ _ (congrArg Process.rest hproc)
  refine ⟨i₀, read, psks, hopened, ?_, hrest⟩
  rw [Processes.set_procs_of_ne _ _ _ hne, hkilled]

/-- Every careful step keeps the invariant. -/
theorem Inv.step (hinj : Function.Injective deviceId) (hid : ∀ i, (deviceId i).length = deviceIdLen)
    (hpsk : ∀ i, (psk i).length = pskLen) (s : Registrations ι) (l : ι × Action)
    (s' : Registrations ι) (h : ∃ stage, Inv limit deviceId psk old stage s)
    (hstep : Processes.Step disk s l s' ∧ Careful limit deviceId psk s l) :
    ∃ stage', Inv limit deviceId psk old stage' s' := by
  obtain ⟨stage, h⟩ := h
  obtain ⟨hstep, hcareful⟩ := hstep
  cases hstep with
  | kill hkilled => exact ⟨stage, h.kill hcareful⟩
  | @op i log o k hproc =>
    -- There is a file in any case.
    obtain ⟨bytes, hcontent⟩ : ∃ bytes, s.state.content = some bytes := by
      rcases h.file with ⟨-, bytes, psks, hbytes, -⟩ | ⟨i₀, read, psks, -, -, -, hempty, -⟩
      · exact ⟨bytes, hbytes⟩
      · exact ⟨_, hempty⟩
    have hat := h.at_stage i
    rw [hproc] at hat
    rcases hat.op_cases hcontent with ⟨hbegun, hfile, stage', hstage', hat'⟩ |
      ⟨read, table, hread, hmem, ⟨report, hrevise⟩, rfl, hfile, hat'⟩ |
      ⟨read, table, hread, ⟨report, hrevise⟩, hfile, hat'⟩ | ⟨hwritten, hfile, hat'⟩
    · -- The run looks for the file or reads it.
      refine ⟨_, h.unrelated hat' ?_ ?_ ?_ ?_ ?_⟩
      · rw [hbegun]
        nofun
      · rcases hstage' with rfl | rfl <;> nofun
      · rw [hbegun]
        rcases hstage' with rfl | rfl <;> exact iff_of_false nofun nofun
      · rw [hfile]
      · rw [hfile]
        exact h.mode
    · -- It truncates the file, which it may only while it is what it has read.
      have htrunc : (s.procs i).rest = .op .truncate k := congrArg Process.rest hproc
      obtain ⟨hsame, hover⟩ := hcareful k htrunc read (hproc ▸ hmem)
      rw [hfile]
      exact ⟨_, h.truncate hat' rfl hread ⟨_, hrevise⟩ hsame hover⟩
    · rw [hfile]
      exact ⟨_, h.write hinj (hid i) (hpsk i) hat' hread hrevise hcontent⟩
    · -- It sets the mode.
      refine ⟨_, h.unrelated hat' ?_ nofun (iff_of_true rfl hwritten) ?_ ?_⟩
      · rw [hwritten]
        nofun
      · rw [hfile, hcontent]
      · rw [hfile]
        exact (by decide : 0o600 &&& 0o777 &&& 0o077 = 0)

end Step

section Kept

variable [DecidableEq ι] {limit : ℕ} {path : String} {deviceId psk : ι → List UInt8}

/-- Registrations are kept. Any number of runs with different ids start on a file that the server
accepts, and each step is a careful one. When all have ended, a reload accepts the file; every run
that has reported success has its device in the table, with its PSK; every device that was there
before and is not registered again is there with its old PSK, and every other one with its old or
its new PSK. -/
theorem registrations_kept (hinj : Function.Injective deviceId)
    (hid : ∀ i, (deviceId i).length = deviceIdLen) (hpsk : ∀ i, (psk i).length = pskLen)
    {file : Disk} {mtime : μ} {table₀ table : DeviceTable μ}
    (haccept : (file.file mtime).exec (reload limit path) table₀ = (.ok (), table))
    {ls : List (ι × Action)} {s : Registrations ι}
    (hrun : Steps (fun s l s' => Processes.Step disk s l s' ∧ Careful limit deviceId psk s l)
      (begin limit deviceId psk file) ls s)
    (hended : ∀ i, (s.procs i).Ended) (mtime' : μ) :
    ∃ table', (s.state.file mtime').exec (reload limit path) table = (.ok (), table') ∧
      (∀ i report, (s.procs i).rest = .ret (.ok report) →
        table'.get (deviceId i) = some (psk i)) ∧
      (∀ d, (∀ i, deviceId i ≠ d) → table'.get d = table.get d) ∧
      ∀ i, table'.get (deviceId i) = some (psk i) ∨
        table'.get (deviceId i) = table.get (deviceId i) := by
  obtain ⟨bytes, hcontent, hmode, hload, -⟩ := Disk.exec_reload_ok.mp haccept
  -- The invariant holds at the start, and so at the end.
  have hinit : Inv limit deviceId psk table.psks (fun _ => .begun)
      (begin limit deviceId psk file) :=
    ⟨fun i => .start, hmode, .inl ⟨fun _ _ => nofun, bytes, table.psks, hcontent, hload,
      fun _ _ => rfl, fun _ => nofun, fun _ _ => rfl⟩⟩
  obtain ⟨stage, h⟩ := hrun.invariant (Inv.step hinj hid hpsk) ⟨_, hinit⟩
  rcases h.file with ⟨-, bytes', psks', hcontent', hload', hdue⟩ |
    ⟨i, read, psks', hopened, hkilled, -⟩
  · refine ⟨⟨psks', some mtime'⟩, Disk.exec_reload_ok.mpr ⟨bytes', hcontent', h.mode, hload', rfl⟩,
      fun i report hreport => hdue.written i ?_, hdue.other, fun i => ?_⟩
    · -- Only a run that has written reports success.
      have hat := h.at_stage i
      generalize hproc : s.procs i = p at hat hreport
      generalize stage i = stage' at hat ⊢
      cases hat with
      | start =>
        rw [run_remoteProgram] at hreport
        cases hreport
      | found => cases hreport
      | read read =>
        cases hrevise : revise limit (deviceId i) (psk i) read with
        | error e =>
          rw [hrevise] at hreport
          cases hreport
        | ok result =>
          rw [hrevise] at hreport
          cases hreport
      | opened => cases hreport
      | written => cases hreport
      | done => rfl
    · -- Whatever a run says, its device has its new PSK or its old one.
      by_cases hwritten : stage i = .written
      · exact .inl (hdue.written i hwritten)
      · exact .inr (hdue.unwritten i hwritten)
  · -- A run that has truncated the file has neither ended nor been killed.
    have hat := h.at_stage i
    have hend := hended i
    rw [hopened] at hat
    generalize hproc : s.procs i = p at hat hend hkilled
    cases hat with
    | opened =>
      rcases hend with hdead | ⟨a, hret⟩
      · exact absurd hdead (by rw [hkilled]; decide)
      · cases hret

/-- A run that nobody interferes with up to its reading of the table. -/
theorem exists_read (limit : ℕ) (deviceId psk : ι → List UInt8) {s : Registrations ι} {i : ι}
    {bytes : ByteArray}
    (h : s.procs i = ⟨[], (remoteProgram limit (registration (deviceId i) (psk i))).run, false⟩)
    (hcontent : s.state.content = some bytes) :
    ∃ s', Steps (fun s l s' => Processes.Step disk s l s' ∧ Careful limit deviceId psk s l) s
        [(i, .op), (i, .op)] s' ∧ s'.state = s.state ∧
      s'.procs i = ⟨[⟨.pathExists, true⟩, ⟨.readText, some bytes⟩],
        store (revise limit (deviceId i) (psk i) bytes), false⟩ ∧
      ∀ j, j ≠ i → s'.procs j = s.procs j := by
  have hfound : disk.answer s.state .pathExists = true := congrArg Option.isSome hcontent
  have hread : disk.answer s.state .readText = some bytes := hcontent
  rw [run_remoteProgram] at h
  have hcareful : Careful limit deviceId psk s (i, .op) := fun k hk => by
    rw [h] at hk
    cases hk
  -- `path.exists()`, then `path.read_text()`.
  have hfirst := Processes.Step.op (M := disk) h
  rw [hfound, if_pos rfl] at hfirst
  generalize hs₁ : s.set i _ _ = s₁ at hfirst
  have hstate : s₁.state = s.state := by
    rw [← hs₁]
    rfl
  have hproc : s₁.procs i = _ := hs₁ ▸ Processes.set_procs_self ..
  have hcareful₁ : Careful limit deviceId psk s₁ (i, .op) := fun k hk => by
    rw [hproc] at hk
    cases hk
  have hsecond := Processes.Step.op (M := disk) hproc
  rw [hstate, hread] at hsecond
  refine ⟨_, .cons ⟨hfirst, hcareful⟩ (.single ⟨hsecond, hcareful₁⟩), rfl,
    Processes.set_procs_self .., fun j hj => ?_⟩
  rw [Processes.set_procs_of_ne _ _ _ hj, ← hs₁, Processes.set_procs_of_ne _ _ _ hj]

/-- A run that nobody interferes with once it has read the table. -/
theorem exists_written {s : Registrations ι} {i : ι} {bytes : ByteArray} {table : Json}
    {report : List Char}
    (h : s.procs i = ⟨[⟨.pathExists, true⟩, ⟨.readText, some bytes⟩],
      store (.ok (table, report)), false⟩)
    (hcontent : s.state.content = some bytes)
    (hover : ¬ Overridden limit bytes (deviceId i) (psk i)) :
    ∃ s' log, Steps (fun s l s' => Processes.Step disk s l s' ∧ Careful limit deviceId psk s l) s
        [(i, .op), (i, .op), (i, .op)] s' ∧ s'.state = ⟨some (tableText table), 0o600⟩ ∧
      s'.procs i = ⟨log, .ret (.ok report), false⟩ ∧ ∀ j, j ≠ i → s'.procs j = s.procs j := by
  have hcareful : Careful limit deviceId psk s (i, .op) := fun k hk bytes' hmem => by
    rw [h] at hmem
    have hevent : (⟨.readText, some bytes'⟩ : Event remoteOps) = ⟨.readText, some bytes⟩ := by
      rcases List.mem_pair.mp hmem with heq | heq
      · cases heq
      · exact heq
    cases hevent
    exact ⟨hcontent, hover⟩
  -- It truncates, writes, and sets the mode.
  have hfirst := Processes.Step.op (M := disk) h
  generalize hs₁ : s.set i _ _ = s₁ at hfirst
  have hproc₁ : s₁.procs i = _ := hs₁ ▸ Processes.set_procs_self ..
  have hcareful₁ : Careful limit deviceId psk s₁ (i, .op) := fun k hk => by
    rw [hproc₁] at hk
    cases hk
  have hsecond := Processes.Step.op (M := disk) hproc₁
  generalize hs₂ : s₁.set i _ _ = s₂ at hsecond
  have hproc₂ : s₂.procs i = _ := hs₂ ▸ Processes.set_procs_self ..
  have hcareful₂ : Careful limit deviceId psk s₂ (i, .op) := fun k hk => by
    rw [hproc₂] at hk
    cases hk
  have hthird := Processes.Step.op (M := disk) hproc₂
  refine ⟨_, _, .cons ⟨hfirst, hcareful⟩ (.cons ⟨hsecond, hcareful₁⟩ (.single ⟨hthird, hcareful₂⟩)),
    ?_, Processes.set_procs_self .., fun j hj => ?_⟩
  · rw [← hs₂, ← hs₁]
    show (⟨some (overwrite .empty (tableText table)), 0o600⟩ : Disk) = _
    rw [overwrite_empty]
  · rw [Processes.set_procs_of_ne _ _ _ hj, ← hs₂, Processes.set_procs_of_ne _ _ _ hj, ← hs₁,
      Processes.set_procs_of_ne _ _ _ hj]

/-- A whole run that nobody interferes with, on a table that the tool has written. -/
theorem exists_registered (hlimit : 0 < limit) (psks : Psks)
    (hdiffer : Dict.KeysDiffer psks.entries)
    {s : Registrations ι} {i : ι} (hgood : WellFormed (deviceId i, psk i))
    (h : s.procs i = ⟨[], (remoteProgram limit (registration (deviceId i) (psk i))).run, false⟩)
    (hcontent : s.state.content = some (tableText (.obj (members psks.entries)))) :
    ∃ ls s' log report, Steps
        (fun s l s' => Processes.Step disk s l s' ∧ Careful limit deviceId psk s l) s ls s' ∧
      s'.state.content =
        some (tableText (.obj (members (psks.assign (deviceId i) (psk i) hgood).entries))) ∧
      s'.procs i = ⟨log, .ret (.ok report), false⟩ ∧ ∀ j, j ≠ i → s'.procs j = s.procs j := by
  obtain ⟨report, hrevise⟩ := revise_members hlimit hdiffer (deviceId i) (psk i)
  obtain ⟨s₁, hread, hstate₁, hproc₁, hothers₁⟩ := exists_read limit deviceId psk h hcontent
  rw [hrevise] at hproc₁
  have hcontent₁ := (congrArg Disk.content hstate₁).trans hcontent
  obtain ⟨s₂, log, hwrite, hstate₂, hproc₂, hothers₂⟩ := exists_written hproc₁ hcontent₁
    (not_overridden_members hlimit psks hdiffer hgood)
  exact ⟨_, s₂, log, report, hread.append hwrite, congrArg Disk.content hstate₂, hproc₂,
    fun j hj => (hothers₂ j hj).trans (hothers₁ j hj)⟩

end Kept

/-- Two runs, one after the other, on a table with an earlier device. All three are in the table
afterwards. -/
theorem registrations_kept_two :
    let device (n : UInt8) : List UInt8 := n :: List.replicate 7 0
    let deviceId (i : Bool) : List UInt8 := device (if i then 2 else 1)
    let psk (i : Bool) : List UInt8 := List.replicate 32 (if i then 0xcd else 0xab)
    let earlier : Psks := ⟨[(device 3, List.replicate 32 0xef)], by decide⟩
    let file : Disk := ⟨some (tableText (.obj (members earlier.entries))), 0o600⟩
    ∃ ls s table', Steps
        (fun s l s' => Processes.Step disk s l s' ∧ Careful 1000 deviceId psk s l)
        (begin 1000 deviceId psk file) ls s ∧
      (∀ i, ∃ report, (s.procs i).rest = .ret (.ok report)) ∧
      (s.state.file 1).exec (reload 1000 "devices.json") ⟨earlier, some 0⟩ = (.ok (), table') ∧
      (∀ i, table'.get (deviceId i) = some (psk i)) ∧
      table'.get (device 3) = some (List.replicate 32 0xef) := by
  intro device deviceId psk earlier file
  have hdiffer : Dict.KeysDiffer earlier.entries := List.nodup_singleton _
  have hgood : ∀ i, WellFormed (deviceId i, psk i) := fun i => ⟨rfl, List.length_replicate⟩
  have hinjective : Function.Injective deviceId := by
    have hhead : ∀ i i' : Bool, deviceId i = deviceId i' → i = i' := by decide
    exact fun i i' => hhead i i'
  have haccept : (file.file 0).exec (reload 1000 "devices.json") .empty =
      (.ok (), ⟨earlier, some 0⟩) :=
    Disk.exec_reload_ok.mpr ⟨_, rfl, (by decide : 0o600 &&& 0o777 &&& 0o077 = 0),
      loadTable_members (by decide) earlier hdiffer, rfl⟩
  -- The first run, and then the second.
  obtain ⟨ls₁, s₁, log₁, report₁, hsteps₁, hcontent₁, hproc₁, hothers₁⟩ :=
    exists_registered (by decide) earlier hdiffer (hgood false)
      (show (begin 1000 deviceId psk file).procs false = _ from rfl) rfl
  have hdiffer₁ : Dict.KeysDiffer (earlier.assign _ _ (hgood false)).entries :=
    hdiffer.insert (deviceId false) (psk false)
  obtain ⟨ls₂, s₂, log₂, report₂, hsteps₂, -, hproc₂, hothers₂⟩ :=
    exists_registered (by decide) _ hdiffer₁ (hgood true) (hothers₁ true (by decide)) hcontent₁
  have hrun := hsteps₁.append hsteps₂
  have hended : ∀ i, ∃ report, (s₂.procs i).rest = .ret (.ok report) := by
    rintro (_ | _)
    · exact ⟨report₁, congrArg Process.rest ((hothers₂ false (by decide)).trans hproc₁)⟩
    · exact ⟨report₂, congrArg Process.rest hproc₂⟩
  obtain ⟨table', hreload, hsuccess, hother, -⟩ := registrations_kept hinjective
    (fun i => (hgood i).1) (fun i => (hgood i).2) haccept hrun
    (fun i => .inr ((hended i).elim fun _ h => ⟨_, h⟩)) 1
  refine ⟨_, s₂, table', hrun, hended, hreload, fun i => ?_, ?_⟩
  · obtain ⟨report, hreport⟩ := hended i
    exact hsuccess i report hreport
  · rw [hother (device 3) (by decide)]
    rfl

/-- Registrations are lost. Two runs with different ids on an empty table: one reads it, the other
runs from its beginning to its end, then the first goes on; both report success, and one device is
missing. And one that is killed between truncating and writing leaves a file that is no table. -/
theorem registrations_lost :
    let deviceId : Bool → List UInt8 := fun i => (if i then 2 else 1) :: List.replicate 7 0
    let psk : Bool → List UInt8 := fun _ => List.replicate 32 0xab
    let file : Disk := ⟨some (encodeText "\x7b\x7d".toList), 0o600⟩
    (∃ ls s table, Steps (Processes.Step disk) (begin 1000 deviceId psk file) ls s ∧
      (∀ i, ∃ report, (s.procs i).rest = .ret (.ok report)) ∧
      (s.state.file 1).exec (reload 1000 "devices.json") .empty = (.ok (), table) ∧
      table.get (deviceId true) = none) ∧
    ∃ ls s, Steps (Processes.Step disk) (begin 1000 deviceId psk file) ls s ∧
      (∀ i, (s.procs i).Ended) ∧
      (s.state.file 1).exec (reload 1000 "devices.json") .empty = (.error .valueError, .empty) := by
  intro deviceId psk file
  have hload : loadTable 1000 (encodeText "\x7b\x7d".toList) = .ok ⟨[], List.forall_mem_nil _⟩ :=
    loadTable_ok.mpr ⟨_, [], [], decodeText_encodeText _, rfl, rfl, rfl⟩
  have hlength : ∀ i, (deviceId i).length = deviceIdLen := by decide
  obtain ⟨table, report, psks, hrevise, hload', hother, -⟩ :=
    loadTable_revise hload (hlength false) (rfl : (psk false).length = pskLen)
  obtain ⟨table₁, report₁, -, hrevise₁, -⟩ :=
    loadTable_revise hload (hlength true) (rfl : (psk true).length = pskLen)
  -- The first run reads the table.
  obtain ⟨s₁, hread, hstate₁, hproc₁, hothers₁⟩ :=
    exists_read 1000 deviceId psk (s := begin 1000 deviceId psk file) (i := false) rfl rfl
  have hsteps₁ := hread.mono fun _ _ _ h => h.1
  have hcontent₁ : s₁.state.content = some (encodeText "\x7b\x7d".toList) :=
    congrArg Disk.content hstate₁
  rw [hrevise] at hproc₁
  refine ⟨?_, ?_⟩
  · -- The second one runs from its beginning to its end, and then the first one goes on.
    obtain ⟨ls₂, s₂, log₂, hsteps₂, hstate₂, hself₂, hothers₂⟩ :=
      Processes.exists_end disk (hothers₁ true (by decide))
    rw [exec_remoteProgram hcontent₁ hrevise₁] at hstate₂ hself₂
    obtain ⟨ls₃, s₃, log₃, hsteps₃, hstate₃, hself₃, hothers₃⟩ :=
      Processes.exists_end disk ((hothers₂ false (by decide)).trans hproc₁)
    rw [exec_store (congrArg Disk.content hstate₂)] at hstate₃ hself₃
    refine ⟨_, s₃, ⟨psks, some 1⟩, hsteps₁.append (hsteps₂.append hsteps₃), fun i => ?_, ?_, ?_⟩
    · cases i with
      | false => exact ⟨report, congrArg Process.rest hself₃⟩
      | true =>
        refine ⟨report₁, ?_⟩
        rw [hothers₃ true (by decide), hself₂]
    · rw [hstate₃]
      exact Disk.exec_reload_ok.mpr
        ⟨_, rfl, (by decide : 0o600 &&& 0o777 &&& 0o077 = 0), hload', rfl⟩
    · exact hother (deviceId true) (by decide)
  · -- The second one is killed before it begins, the first one between truncating and writing.
    have htruncate := Processes.Step.op (M := disk) hproc₁
    generalize hs₂ : s₁.set false _ _ = s₂ at htruncate
    have hproc₂ : s₂.procs false = _ := hs₂ ▸ Processes.set_procs_self ..
    have hkilled₂ : (s₂.procs false).killed = false := congrArg Process.killed hproc₂
    have hkill := Processes.Step.kill (M := disk) hkilled₂
    generalize hs₃ : s₂.set false _ _ = s₃ at hkill
    have hdead : (s₃.procs false).killed = true := by rw [← hs₃, Processes.set_procs_self]
    have htrue : s₃.procs true =
        ⟨[], (remoteProgram 1000 (registration (deviceId true) (psk true))).run, false⟩ := by
      rw [← hs₃, Processes.set_procs_of_ne _ _ _ (by decide), ← hs₂,
        Processes.set_procs_of_ne _ _ _ (by decide), hothers₁ true (by decide)]
      rfl
    have hkill' := Processes.Step.kill (M := disk) (congrArg Process.killed htrue)
    refine ⟨_, _, hsteps₁.append (.cons htruncate (.cons hkill (.single hkill'))),
      fun i => .inl ?_, ?_⟩
    · cases i with
      | false => rw [Processes.set_procs_of_ne _ _ _ (by decide), hdead]
      | true => rw [Processes.set_procs_self]
    · have hempty : ByteArray.empty = encodeText [] := by decide
      have hstate : s₃.state = ⟨some (encodeText []), 0o600⟩ := by
        rw [← hs₃, ← hs₂, ← hempty, hstate₁]
        rfl
      rw [Processes.set_state, hstate, FileState.exec_reload]
      have hfail : loadTable 1000 (encodeText []) = .error .valueError := by
        rw [loadTable, decodeText_encodeText]
        rfl
      have hloaded : ((⟨some (encodeText []), 0o600⟩ : Disk).file 1).loaded 1000 "devices.json" =
          .error .valueError := by
        rw [Disk.loaded_of_mode _ _ rfl (by decide : 0o600 &&& 0o777 &&& 0o077 = 0), hfail]
        rfl
      rw [hloaded]

end Devices

end PqcIot
