import PqcIot.Devices.Reload
import PqcIot.Effects.Interference
import PqcIot.Effects.Transition

/-!
# No stale table

The server runs `__init__` and then one `psk_for` after another, while another process writes the
file: between any two file operations of a call the file may change, any number of times, and each
version has a modification time that none before it had. Truncating and rewriting are two versions.
The time is `st_mtime` as `_refresh` compares it, a floating-point number: a write after which this
number is one that the file had before is none of these.

* `Fresh` — what ties the fields to the versions of the file: the PSKs are those of some version,
  and they are those of the current one if the remembered time is its time;
* `under_init`, `under_pskFor` — the methods keep that, whatever the writers do in between;
* `no_stale_table` — every reachable state, and every call that runs after the last write.
-/

namespace PqcIot

open Effects Protocol Text

namespace Devices

variable {μ : Type}

/-! ## The file over time -/

/-- The file between two writes. -/
structure Version (μ : Type) where
  mtime : μ
  content : ByteArray

/-- What the server sees of it. It is a regular file of mode 0600. -/
def Version.file (v : Version μ) : FileState μ := ⟨some ⟨v.mtime, 0o100600⟩, some v.content⟩

/-- A valid table is loaded, with its time. -/
theorem Version.loaded {limit : ℕ} (v : Version μ) (path : String) {psks : Psks}
    (h : loadTable limit v.content = .ok psks) :
    v.file.loaded limit path = .ok (psks, v.mtime) := by
  have hmode : ¬ 0o100600 &&& 0o777 &&& 0o077 ≠ 0 := by decide
  show @ite _ _ _ _ _ = _
  rw [if_neg hmode]
  dsimp only [Version.file]
  rw [h]

/-- All versions, the latest first. No two have the same time: their `st_mtime` differ as the
numbers that are compared. -/
structure History (μ : Type) where
  current : Version μ
  past : List (Version μ)
  nodup : ((current :: past).map Version.mtime).Nodup

namespace History

/-- Every version until now. -/
def versions (file : History μ) : List (Version μ) := file.current :: file.past

/-- A write, at a time that the file never had. -/
def write (file : History μ) (v : Version μ) (hfresh : v.mtime ∉ file.versions.map Version.mtime) :
    History μ :=
  ⟨v, file.versions, List.nodup_cons.mpr ⟨hfresh, file.nodup⟩⟩

variable {file file' : History μ}

theorem current_mem (file : History μ) : file.current ∈ file.versions := List.mem_cons_self

/-- If the current version was there before, then nothing was written since. -/
theorem eq_of_suffix (h : file.versions <:+ file'.versions) (hmem : file'.current ∈ file.versions) :
    file = file' := by
  obtain ⟨newer, hnewer⟩ := h
  cases newer with
  | nil =>
    obtain ⟨current, past, _⟩ := file
    obtain ⟨current', past', _⟩ := file'
    obtain ⟨rfl, rfl⟩ := List.cons.inj hnewer
    rfl
  | cons v newer =>
    -- The latest version would have the time of an earlier one.
    obtain ⟨rfl, hpast⟩ := List.cons.inj hnewer
    refine absurd ?_ (List.nodup_cons.mp file'.nodup).1
    rw [← hpast]
    exact List.mem_map_of_mem (List.mem_append_right _ hmem)

end History

/-- The file as the server uses it: it only looks, and others only write. -/
def shared (μ : Type) : Shared (fileOps μ) (History μ) where
  answer file := file.current.file.answer
  next file _ := file
  Rely file file' := file.versions <:+ file'.versions
  refl _ := List.suffix_refl _
  trans := List.IsSuffix.trans

/-- The fields agree with the file as far as `psk_for` relies on them. -/
structure Fresh (limit : ℕ) (file : History μ) (table : DeviceTable μ) : Prop where
  /-- The PSKs were loaded from some version. -/
  loaded : ∃ v ∈ file.versions, loadTable limit v.content = .ok table.psks
  /-- The remembered time is that of some version, and if that is the current one, then the PSKs are
  those of the current version. -/
  mtime : ∃ v ∈ file.versions, table.mtime = some v.mtime ∧
    (v = file.current → loadTable limit v.content = .ok table.psks)

section Methods

variable {limit : ℕ} {path : String} {file file' : History μ} {table : DeviceTable μ}

/-- A write cannot make the fields wrong: it only makes the remembered time an old one. -/
theorem Fresh.rely (h : Fresh limit file table) (hrely : (shared μ).Rely file file') :
    Fresh limit file' table := by
  obtain ⟨v, hv, hmtime, hcurrent⟩ := h.mtime
  refine ⟨h.loaded.imp fun w hw => ⟨hrely.subset hw.1, hw.2⟩, v, hrely.subset hv, hmtime, ?_⟩
  rintro rfl
  -- The version was there before and is the current one: the file is the same.
  obtain rfl := History.eq_of_suffix hrely hv
  exact hcurrent rfl

/-- `_reload`, operation by operation. -/
theorem run_reload (limit : ℕ) (path : String) (table : DeviceTable μ) :
    (reload limit path).run.run table = .op .stat fun
      | none => .ret (.error .osError, table)
      | some stat =>
        let mode := stat.mode &&& 0o777
        if mode &&& 0o077 ≠ 0 then
          let octal := String.ofList (Nat.toDigits 8 mode)
          .ret (.error (.systemExit
            s!"device table {path} has mode {octal}; it holds PSKs and must be 0600"), table)
        else
          .op .readText fun
            | none => .ret (.error .osError, table)
            | some bytes => match loadTable limit bytes with
              | .ok psks => .ret (.ok (), ⟨psks, some stat.mtime⟩)
              | .error e => .ret (.error e, table) := by
  -- One operation after the other, with a branch on each answer.
  refine congrArg (Prog.op _) (funext fun stat => ?_)
  cases stat with
  | none => rfl
  | some stat =>
    dsimp only
    split
    · next hmode =>
      show StateT.run (ExceptT.run (ite _ _ _)) table = _
      rw [if_pos hmode]
      rfl
    · next hmode =>
      show StateT.run (ExceptT.run (ite _ _ _)) table = _
      rw [if_neg hmode]
      refine congrArg (Prog.op _) (funext fun content => ?_)
      cases content with
      | none => rfl
      | some bytes =>
        dsimp only
        show StateT.run (ExceptT.run (Code.ofExcept (loadTable limit bytes) >>= _)) table = _
        cases loadTable limit bytes <;> rfl

/-- `_reload` leaves the fields alone, or sets them to what agrees with the file. -/
theorem under_reload (limit : ℕ) (path : String) (file : History μ) (table : DeviceTable μ) :
    (shared μ).Under (fun file' r => (shared μ).Rely file file' ∧
      ((∃ e, r = (.error e, table)) ∨ r.1 = .ok () ∧ Fresh limit file' r.2)) file
      ((reload limit path).run.run table) := by
  rw [run_reload]
  -- The file may change before every operation, and after the last one.
  intro file₁ h₁
  have hmode : ¬ 0o100600 &&& 0o777 &&& 0o077 ≠ 0 := by decide
  show (shared μ).Under _ file₁ (@ite _ _ _ _ _)
  rw [if_neg hmode]
  intro file₂ h₂
  dsimp only [shared, FileState.answer, Version.file]
  cases hload : loadTable limit file₂.current.content with
  | error e => exact fun _ h₃ => ⟨(h₁.trans h₂).trans h₃, .inl ⟨e, rfl⟩⟩
  | ok psks =>
    refine fun file₃ h₃ => ⟨(h₁.trans h₂).trans h₃, .inr ⟨rfl, ?_⟩⟩
    refine ⟨⟨file₂.current, h₃.subset file₂.current_mem, hload⟩,
      file₁.current, (h₂.trans h₃).subset file₁.current_mem, rfl, fun hcurrent => ?_⟩
    -- The version of the `stat` is still the current one, so it is the one that was read.
    have hmem : file₃.current ∈ file₂.versions := hcurrent ▸ h₂.subset file₁.current_mem
    obtain rfl := History.eq_of_suffix h₃ hmem
    rwa [hcurrent]

/-- When `__init__` returns, the fields agree with the file. -/
theorem under_init (limit : ℕ) (path : String) (file : History μ) (table : DeviceTable μ) :
    (shared μ).Under (fun file' r => r.1 = .ok () → Fresh limit file' r.2) file
      ((init limit path).run.run table) := by
  intro file₁ _
  show (shared μ).Under _ file₁ ((reload limit path).run.run table)
  refine (under_reload limit path file₁ table).mono fun file' r hr hok => ?_
  rcases hr.2 with ⟨e, rfl⟩ | ⟨-, hfresh⟩
  · cases hok
  · exact hfresh

variable [DecidableEq μ]

/-- `psk_for`, operation by operation. -/
theorem run_pskFor (limit : ℕ) (path : String) (deviceId : List UInt8) (table : DeviceTable μ) :
    (pskFor limit path deviceId).run.run table = .op .stat fun
      | none => .ret (.ok (table.get deviceId), table)
      | some stat =>
        if some stat.mtime ≠ table.mtime then
          (reload limit path).run.run table >>= fun
            | (.ok (), table') => .ret (.ok (table'.get deviceId), table')
            | (.error .osError, table') => .ret (.ok (table'.get deviceId), table')
            | (.error .valueError, table') => .ret (.ok (table'.get deviceId), table')
            | (.error e, table') => .ret (.error e, table')
        else
          .ret (.ok (table.get deviceId), table) := by
  refine congrArg (Prog.op _) (funext fun stat => ?_)
  cases stat with
  | none => rfl
  | some stat =>
    dsimp only
    change StateT.run (ExceptT.run (tryCatch
      (if some stat.mtime ≠ table.mtime then reload limit path else pure ()) _ >>= _)) table = _
    -- The table is read again only where the time has changed.
    by_cases hmtime : some stat.mtime ≠ table.mtime
    · rw [if_pos hmtime, if_pos hmtime, Code.run_bind, Code.run_tryCatch, Prog.bind_bind]
      refine bind_congr fun r => ?_
      rcases r with ⟨e | _, table'⟩
      · cases e <;> rfl
      · rfl
    · rw [if_neg hmtime, if_neg hmtime]
      rfl

/-- `psk_for` keeps the fields in agreement with the file, also where it raises. -/
theorem under_pskFor (path : String) (deviceId : List UInt8) (h : Fresh limit file table) :
    (shared μ).Under (fun file' r => Fresh limit file' r.2) file
      ((pskFor limit path deviceId).run.run table) := by
  -- Fields that are left alone agree with a file that has more versions.
  have hkeep : ∀ {file' : History μ} (a : Except TableExn (Option (List UInt8))),
      (shared μ).Rely file file' →
        (shared μ).Under (fun file' r => Fresh limit file' r.2) file' (.ret (a, table)) :=
    fun a h₁ => fun _ h₂ => (h.rely h₁).rely h₂
  rw [run_pskFor]
  intro file₁ h₁
  show (shared μ).Under _ file₁ (@ite _ _ _ _ _)
  by_cases hmtime : some file₁.current.mtime ≠ table.mtime
  · rw [if_pos hmtime, Shared.under_bind]
    refine Shared.Under.mono (under_reload limit path file₁ table) fun file₂ r hr => ?_
    -- `_reload` has failed, or the fields are those of a version that it has read.
    rcases hr with ⟨h₂, ⟨e, rfl⟩ | ⟨-, hfresh⟩⟩
    · have hrely := h₁.trans h₂
      cases e <;> exact hkeep _ hrely
    · rcases r with ⟨e | _, table'⟩
      · cases e <;> exact fun _ h₃ => hfresh.rely h₃
      · exact fun _ h₃ => hfresh.rely h₃
  · rw [if_neg hmtime]
    exact hkeep _ h₁

end Methods

/-! ## The server among writers -/

/-- What the server is doing with its table. The object is there from the end of `__init__` on; a
call in progress assigns to its fields at the end, where nothing else looks at them. -/
inductive Activity (μ : Type) where
  | starting (rest : Prog (fileOps μ) (Except TableExn Unit × DeviceTable μ))
  | idle (table : DeviceTable μ)
  | calling (table : DeviceTable μ)
      (rest : Prog (fileOps μ) (Except TableExn (Option (List UInt8)) × DeviceTable μ))
  /-- An exception was not caught. -/
  | stopped

/-- The table in memory. -/
def Activity.table : Activity μ → Option (DeviceTable μ)
  | .starting _ | .stopped => none
  | .idle table | .calling table _ => some table

/-- The file and the server. -/
structure System (μ : Type) where
  file : History μ
  server : Activity μ

/-- What happens in a step. -/
inductive Label where
  /-- Another process changes the file. -/
  | write
  /-- The server performs one operation on the file. -/
  | op
  | started
  | call (deviceId : List UInt8)
  /-- The call returns. -/
  | answer (psk : Option (List UInt8))
  | raised (e : TableExn)

variable [DecidableEq μ]

/-- The steps of the writers and of the server. -/
inductive System.Step (limit : ℕ) (path : String) : System μ → Label → System μ → Prop
  | write {file : History μ} {server : Activity μ} (v : Version μ)
      (hfresh : v.mtime ∉ file.versions.map Version.mtime) :
      Step limit path ⟨file, server⟩ .write ⟨file.write v hfresh, server⟩
  | startOp {file : History μ} {o : FileOp}
      {k : FileOp.Ans μ o → Prog (fileOps μ) (Except TableExn Unit × DeviceTable μ)} :
      Step limit path ⟨file, .starting (.op o k)⟩ .op
        ⟨file, .starting (k (file.current.file.answer o))⟩
  | started {file : History μ} {table : DeviceTable μ} :
      Step limit path ⟨file, .starting (.ret (.ok (), table))⟩ .started ⟨file, .idle table⟩
  | startFails {file : History μ} {table : DeviceTable μ} {e : TableExn} :
      Step limit path ⟨file, .starting (.ret (.error e, table))⟩ (.raised e) ⟨file, .stopped⟩
  | call {file : History μ} {table : DeviceTable μ} (deviceId : List UInt8) :
      Step limit path ⟨file, .idle table⟩ (.call deviceId)
        ⟨file, .calling table ((pskFor limit path deviceId).run.run table)⟩
  | callOp {file : History μ} {table : DeviceTable μ} {o : FileOp}
      {k : FileOp.Ans μ o →
        Prog (fileOps μ) (Except TableExn (Option (List UInt8)) × DeviceTable μ)} :
      Step limit path ⟨file, .calling table (.op o k)⟩ .op
        ⟨file, .calling table (k (file.current.file.answer o))⟩
  | answer {file : History μ} {table table' : DeviceTable μ} {psk : Option (List UInt8)} :
      Step limit path ⟨file, .calling table (.ret (.ok psk, table'))⟩ (.answer psk)
        ⟨file, .idle table'⟩
  | callFails {file : History μ} {table table' : DeviceTable μ} {e : TableExn} :
      Step limit path ⟨file, .calling table (.ret (.error e, table'))⟩ (.raised e) ⟨file, .stopped⟩

namespace System

variable {limit : ℕ} {path : String} {s s' : System μ} {file : History μ} {table : DeviceTable μ}

/-- States that some run from the start of the server leads to, with any first version of the
file. -/
def Reachable (limit : ℕ) (path : String) (s : System μ) : Prop :=
  ∃ (file : History μ) (log : List Label),
    Steps (Step limit path) ⟨file, .starting ((init limit path).run.run .empty)⟩ log s

/-- The table agrees with the file, and what is left of a method will keep it so. -/
def Inv (limit : ℕ) (s : System μ) : Prop :=
  match s.server with
  | .starting rest =>
    (shared μ).Under (fun file r => r.1 = .ok () → Fresh limit file r.2) s.file rest
  | .idle table => Fresh limit s.file table
  | .calling table rest => Fresh limit s.file table ∧
      (shared μ).Under (fun file r => Fresh limit file r.2) s.file rest
  | .stopped => True

/-- Every step keeps the invariant. -/
theorem Inv.step (s : System μ) (l : Label) (s' : System μ) (h : Inv limit s)
    (hstep : Step limit path s l s') : Inv limit s' := by
  cases hstep with
  -- A writer interferes with the server wherever it is.
  | @write file server v hfresh =>
    have hrely : (shared μ).Rely file (file.write v hfresh) := List.suffix_cons _ _
    cases server with
    | starting rest => exact Shared.Under.interfere h hrely
    | idle table => exact Fresh.rely h hrely
    | calling table rest => exact ⟨h.1.rely hrely, h.2.interfere hrely⟩
    | stopped => trivial
  | startOp => exact Shared.Under.step h
  | @started file table =>
    have hret : (shared μ).Under (fun file (r : Except TableExn Unit × DeviceTable μ) =>
        r.1 = .ok () → Fresh limit file r.2) file (.ret (.ok (), table)) := h
    exact hret.ret rfl
  | startFails => trivial
  | call deviceId => exact ⟨h, under_pskFor path deviceId h⟩
  | callOp => exact ⟨h.1, h.2.step⟩
  | answer => exact h.2.ret
  | callFails => trivial

/-- The invariant holds in every reachable state. -/
theorem Reachable.inv (h : Reachable limit path s) : Inv limit s := by
  obtain ⟨file, log, hsteps⟩ := h
  exact hsteps.invariant Inv.step (under_init limit path file .empty)

/-- In every reachable state the fields agree with the file. -/
theorem Reachable.fresh (h : Reachable limit path s) (htable : s.server.table = some table) :
    Fresh limit s.file table := by
  have hinv := h.inv
  obtain ⟨file, server⟩ := s
  cases server with
  | starting rest => cases htable
  | idle table' =>
    cases htable
    exact hinv
  | calling table' rest =>
    cases htable
    exact hinv.1
  | stopped => cases htable

/-- While nobody writes, `__init__` loads a valid table. -/
theorem reachable_idle (path : String) (file : History μ) {psks : Psks}
    (h : loadTable limit file.current.content = .ok psks) :
    Reachable limit path ⟨file, .idle ⟨psks, some file.current.mtime⟩⟩ := by
  have hexec : file.current.file.exec (init limit path) .empty =
      (.ok (), ⟨psks, some file.current.mtime⟩) := by
    show file.current.file.exec (reload limit path) .empty = _
    rw [FileState.exec_reload, file.current.loaded path h]
  -- The operations of `__init__`, answered by the file as it is.
  have hsteps : ∀ rest : Prog (fileOps μ) (Except TableExn Unit × DeviceTable μ),
      Prog.eval file.current.file.answer rest = (.ok (), ⟨psks, some file.current.mtime⟩) →
        ∃ log, Steps (Step limit path) ⟨file, .starting rest⟩ log
          ⟨file, .idle ⟨psks, some file.current.mtime⟩⟩ := by
    intro rest
    induction rest with
    | ret r =>
      rintro rfl
      exact ⟨[.started], .single .started⟩
    | op o k ih =>
      intro heval
      obtain ⟨log, hlog⟩ := ih _ heval
      exact ⟨.op :: log, .cons .startOp hlog⟩
  exact ⟨file, hsteps _ hexec⟩

/-- While nobody writes, a call performs operations until it ends as it does on an unchanging
file. -/
theorem quiet_call {rest : Prog (fileOps μ) (Except TableExn (Option (List UInt8)) × DeviceTable μ)}
    {n : ℕ} {l : Label}
    (h : Steps (Step limit path) ⟨file, .calling table rest⟩ (List.replicate n .op ++ [l]) s')
    (hl : l ≠ .write) :
    l = .op ∨ (∃ psk, (Prog.eval file.current.file.answer rest).1 = .ok psk ∧ l = .answer psk) ∨
      ∃ e, (Prog.eval file.current.file.answer rest).1 = .error e ∧ l = .raised e := by
  induction n generalizing rest with
  | zero =>
    cases h with
    | cons hstep _ =>
      cases hstep with
      | write => exact absurd rfl hl
      | callOp => exact .inl rfl
      | answer => exact .inr (.inl ⟨_, rfl, rfl⟩)
      | callFails => exact .inr (.inr ⟨_, rfl, rfl⟩)
  | succ n ih =>
    cases h with
    | cons hstep h =>
      cases hstep with
      | callOp =>
        have hrest := ih h
        exact hrest

/-- While nobody writes, a call that does not raise gets to its answer. -/
theorem exists_answer (path : String) (file : History μ) (table : DeviceTable μ)
    {psk : Option (List UInt8)}
    (rest : Prog (fileOps μ) (Except TableExn (Option (List UInt8)) × DeviceTable μ))
    (h : (Prog.eval file.current.file.answer rest).1 = .ok psk) :
    ∃ n s', Steps (Step limit path) ⟨file, .calling table rest⟩
      (List.replicate n .op ++ [.answer psk]) s' := by
  induction rest with
  | ret r =>
    obtain ⟨r, table'⟩ := r
    obtain rfl : r = .ok psk := h
    exact ⟨0, _, .single .answer⟩
  | op o k ih =>
    obtain ⟨n, s', hsteps⟩ := ih _ h
    exact ⟨n + 1, s', .cons .callOp hsteps⟩

/-- On an unchanging file with a valid table, a call answers from it. -/
theorem exec_pskFor_of_fresh (path : String) (deviceId : List UInt8) {psks : Psks}
    (h : Fresh limit file table) (hpsks : loadTable limit file.current.content = .ok psks) :
    (file.current.file.exec (pskFor limit path deviceId) table).1 =
      .ok (psks.entries.get deviceId) := by
  have hloaded := file.current.loaded path hpsks
  rw [FileState.exec_pskFor]
  by_cases hmtime : some file.current.mtime = table.mtime
  · -- The fields are those of the current version already.
    have hrefreshed : file.current.file.refreshed table limit path = .ok table := if_pos hmtime
    rw [hrefreshed]
    obtain ⟨v, hv, hv', hcurrent⟩ := h.mtime
    have heq : v = file.current := List.inj_on_of_nodup_map file.nodup hv file.current_mem
      (Option.some.inj (hv'.symm.trans hmtime.symm))
    have htable : psks = table.psks := Except.ok.inj (hpsks.symm.trans (heq ▸ hcurrent heq))
    rw [htable]
    rfl
  · have hrefreshed : file.current.file.refreshed table limit path =
        .ok ⟨psks, some file.current.mtime⟩ := by
      refine (if_neg hmtime).trans ?_
      rw [hloaded]
    rw [hrefreshed]
    rfl

/-- No stale table, while each write changes `st_mtime` to a number that it never was. In every
state that can be reached, the table in memory is that of some version of the file, whole. If the
server is idle and the file is a valid table then, a call that starts now answers from it unless
somebody writes before that: it does nothing but file operations until it gives this answer, and it
does give it. -/
theorem no_stale_table {limit : ℕ} {path : String} {s : System μ} (h : Reachable limit path s) :
    (∀ table, s.server.table = some table →
      ∃ v ∈ s.file.versions, loadTable limit v.content = .ok table.psks) ∧
    ∀ table psks deviceId, s.server = .idle table →
      loadTable limit s.file.current.content = .ok psks →
      (∀ n l s', Steps (Step limit path) s (.call deviceId :: (List.replicate n .op ++ [l])) s' →
        l ≠ .write → l = .op ∨ l = .answer (psks.entries.get deviceId)) ∧
      ∃ n s', Steps (Step limit path) s
        (.call deviceId :: (List.replicate n .op ++ [.answer (psks.entries.get deviceId)])) s' := by
  refine ⟨fun table htable => (h.fresh htable).loaded, fun table psks deviceId hidle hpsks => ?_⟩
  have hfresh : Fresh limit s.file table := h.fresh (by rw [hidle]; rfl)
  obtain ⟨file, server⟩ := s
  obtain rfl : server = .idle table := hidle
  have hexec := exec_pskFor_of_fresh path deviceId hfresh hpsks
  refine ⟨fun n l s' hsteps hl => ?_, ?_⟩
  · cases hsteps with
    | cons hstep hsteps =>
      cases hstep with
      | call =>
        -- The call has not ended, or has answered, or has raised, which it does not on this table.
        rcases quiet_call hsteps hl with hop | ⟨psk, heval, rfl⟩ | ⟨e, heval, rfl⟩
        · exact .inl hop
        · exact .inr (congrArg Label.answer (Except.ok.inj (heval.symm.trans hexec)))
        · cases heval.symm.trans hexec
  · obtain ⟨n, s', hsteps⟩ := exists_answer path file table _ hexec
    exact ⟨n, s', .cons (.call deviceId) hsteps⟩

/-- A device that is registered while the server runs. -/
theorem no_stale_table_registered :
    let deviceId : List UInt8 := [0, 1, 2, 3, 4, 5, 6, 7]
    let psk : List UInt8 := List.replicate 32 0xab
    let before : Version ℕ := ⟨0, "\x7b\x7d".toList.utf8Encode⟩
    let after : Version ℕ := ⟨1, (Json.dumps 0 (.obj [(ofChars (hexChars deviceId),
      .str (ofChars (hexChars psk)))])).utf8Encode⟩
    ∃ s : System ℕ, Reachable 1000 "devices.json" s ∧ s.file.versions = [after, before] ∧
      ∃ n s', Steps (Step 1000 "devices.json") s
        (.call deviceId :: (List.replicate n .op ++ [.answer (some psk)])) s' := by
  intro deviceId psk before after
  let psks : Psks := ⟨[(deviceId, psk)], by decide⟩
  let none : Psks := ⟨[], by simp⟩
  have hbefore : loadTable 1000 before.content = .ok none :=
    (loadTable_utf8Encode 1000 _).trans rfl
  have hafter : loadTable 1000 after.content = .ok psks :=
    (loadTable_utf8Encode 1000 _).trans rfl
  let file : History ℕ := ⟨before, [], by simp⟩
  let table : DeviceTable ℕ := ⟨none, some 0⟩
  let s : System ℕ := ⟨file.write after (by decide), .idle table⟩
  have hreach : Reachable 1000 "devices.json" s := by
    obtain ⟨file₀, log, hlog⟩ := reachable_idle "devices.json" file hbefore
    exact ⟨file₀, log ++ [.write], hlog.append (.single (.write after (by decide)))⟩
  exact ⟨s, hreach, rfl, ((no_stale_table hreach).2 table psks deviceId rfl hafter).2⟩

end System

end Devices

end PqcIot
