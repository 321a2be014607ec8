import Mathlib.Data.List.Nodup

/-!
# Dictionaries

Dictionaries that keep the order of insertion, as Python's do: assigning to a key that is there
replaces its value in place, and a new key goes to the end.
-/

namespace Text

variable {κ ν : Type} [DecidableEq κ]

/-- A dictionary, in the order of its items. -/
abbrev Dict (κ ν : Type) : Type := List (κ × ν)

namespace Dict

/-- `d[k] = v`. -/
def insert : Dict κ ν → κ → ν → Dict κ ν
  | [], k, v => [(k, v)]
  | (k', v') :: d, k, v => if k' = k then (k, v) :: d else (k', v') :: insert d k v

/-- `d.get(k)`. -/
def get : Dict κ ν → κ → Option ν
  | [], _ => none
  | (k', v) :: d, k => if k' = k then some v else get d k

/-- `d.update(items)`. -/
def update (d : Dict κ ν) (items : List (κ × ν)) : Dict κ ν :=
  items.foldl (fun d item => d.insert item.1 item.2) d

/-- `dict(items)`, or a comprehension over them. -/
def ofItems (items : List (κ × ν)) : Dict κ ν := update [] items

@[simp]
theorem get_nil (k : κ) : get ([] : Dict κ ν) k = none := rfl

/-- The first item with the key is found. -/
theorem get_cons (item : κ × ν) (d : Dict κ ν) (k : κ) :
    get (item :: d) k = if item.1 = k then some item.2 else get d k := rfl

/-- What was inserted is found. -/
@[simp]
theorem get_insert_self (d : Dict κ ν) (k : κ) (v : ν) : (d.insert k v).get k = some v := by
  induction d with
  | nil => simp [insert, get]
  | cons item d ih =>
    rw [insert]
    split
    · simp [get]
    · next hne => simp [get, hne, ih]

/-- Under another key, what was there before is found. -/
theorem get_insert_of_ne (d : Dict κ ν) {k k' : κ} (v : ν) (hne : k ≠ k') :
    (d.insert k v).get k' = d.get k' := by
  induction d with
  | nil => simp [insert, get, hne]
  | cons item d ih =>
    rw [insert]
    split
    · next heq => simp [get, heq, hne]
    · simp [get, ih]

/-- Nothing is found where no item has the key. -/
@[simp]
theorem get_eq_none {d : Dict κ ν} {k : κ} : d.get k = none ↔ ∀ item ∈ d, item.1 ≠ k := by
  induction d with
  | nil => simp
  | cons item d ih =>
    rw [get_cons, List.forall_mem_cons, ← ih]
    split
    · next heq => simp [heq]
    · next hne => simp [hne]

/-- What is found is an item. -/
theorem mem_of_get {d : Dict κ ν} {k : κ} {v : ν} (h : d.get k = some v) : (k, v) ∈ d := by
  induction d with
  | nil => cases h
  | cons item d ih =>
    rw [get_cons] at h
    split at h
    · next heq =>
      cases h
      exact heq ▸ List.mem_cons_self
    · exact List.mem_cons_of_mem _ (ih h)

/-- A new key goes to the end. -/
theorem insert_of_get_eq_none {d : Dict κ ν} {k : κ} (v : ν) (h : d.get k = none) :
    d.insert k v = d ++ [(k, v)] := by
  induction d with
  | nil => rfl
  | cons item d ih =>
    rw [get_eq_none, List.forall_mem_cons] at h
    rw [insert, if_neg h.1, ih (get_eq_none.mpr h.2), List.cons_append]

/-- How many items there are after an assignment does not depend on the value. -/
theorem length_insert (d : Dict κ ν) (k : κ) (v w : ν) :
    (d.insert k v).length = (d.insert k w).length := by
  induction d with
  | nil => rfl
  | cons item d ih =>
    rw [insert, insert]
    split
    · rfl
    · rw [List.length_cons, List.length_cons, ih]

/-- The items after a key. -/
def after (d : Dict κ ν) (k : κ) : Dict κ ν := (d.dropWhile fun item => item.1 ≠ k).tail

/-- An assignment replaces the value where the key is, or adds the key at the end. -/
theorem insert_eq (d : Dict κ ν) (k : κ) (v : ν) :
    ∃ before, d.insert k v = before ++ (k, v) :: d.after k ∧
      (d = before ∧ d.after k = [] ∨ ∃ w, d = before ++ (k, w) :: d.after k) := by
  induction d with
  | nil => exact ⟨[], rfl, .inl ⟨rfl, rfl⟩⟩
  | cons item d ih =>
    rw [insert]
    split
    · next heq =>
      have hafter : after (item :: d) k = d := by
        rw [after, List.dropWhile_cons_of_neg (by simp [heq]), List.tail_cons]
      rw [hafter]
      exact ⟨[], rfl, .inr ⟨item.2, by rw [← heq, List.nil_append]⟩⟩
    · next hne =>
      have hafter : after (item :: d) k = after d k := by
        rw [after, List.dropWhile_cons_of_pos (by simp [hne]), after]
      obtain ⟨before, hinsert, hd⟩ := ih
      rw [hafter]
      refine ⟨item :: before, by rw [hinsert, List.cons_append], ?_⟩
      rcases hd with ⟨heq, hnil⟩ | ⟨w, heq⟩
      · exact .inl ⟨by rw [heq], hnil⟩
      · exact .inr ⟨w, congrArg (item :: ·) heq⟩

/-- The items of a dictionary after an assignment. -/
theorem forall_mem_insert {p : κ × ν → Prop} {d : Dict κ ν} {k : κ} {v : ν}
    (hd : ∀ item ∈ d, p item)
    (hitem : p (k, v)) : ∀ item ∈ d.insert k v, p item := by
  induction d with
  | nil => simpa [insert] using hitem
  | cons item d ih =>
    rw [List.forall_mem_cons] at hd
    rw [insert]
    split
    · exact List.forall_mem_cons.mpr ⟨hitem, hd.2⟩
    · exact List.forall_mem_cons.mpr ⟨hd.1, ih hd.2⟩

@[simp]
theorem update_nil (d : Dict κ ν) : d.update [] = d := rfl

/-- The items are inserted one after the other. -/
@[simp]
theorem update_cons (d : Dict κ ν) (item : κ × ν) (items : List (κ × ν)) :
    d.update (item :: items) = (d.insert item.1 item.2).update items := rfl

/-- So are two lists of them. -/
theorem update_append (d : Dict κ ν) (items items' : List (κ × ν)) :
    d.update (items ++ items') = (d.update items).update items' := List.foldl_append

/-- The last of some items with a key decides, or else what was there. -/
theorem get_update (d : Dict κ ν) (items : List (κ × ν)) (k : κ) :
    (d.update items).get k = ((ofItems items).get k).or (d.get k) := by
  induction items generalizing d with
  | nil => rfl
  | cons item items ih =>
    have hitems : (ofItems (item :: items)).get k =
        ((ofItems items).get k).or (get (insert [] item.1 item.2) k) := ih _
    rw [update_cons, ih, hitems, Option.or_assoc]
    congr 1
    -- The item itself, or what was there.
    by_cases heq : item.1 = k
    · rw [← heq, get_insert_self, get_insert_self, Option.some_or]
    · rw [get_insert_of_ne _ _ heq, get_insert_of_ne _ _ heq, get_nil, Option.none_or]

/-- What is found under a key is the last item with it. -/
theorem get_ofItems_append_cons (items : List (κ × ν)) (item : κ × ν) (items' : List (κ × ν))
    (k : κ) : (ofItems (items ++ item :: items')).get k =
      ((ofItems items').get k).or (if item.1 = k then some item.2 else (ofItems items).get k) := by
  rw [ofItems, update_append, update_cons, get_update]
  congr 1
  split
  · next heq => rw [← heq, get_insert_self]
  · next hne => exact get_insert_of_ne _ _ hne

/-! ## Different keys -/

/-- The keys differ, as in every dictionary. -/
def KeysDiffer (d : Dict κ ν) : Prop := (d.map Prod.fst).Nodup

omit [DecidableEq κ] in
theorem keysDiffer_nil : KeysDiffer ([] : Dict κ ν) := List.nodup_nil

/-- An insertion adds no key but its own. -/
theorem mem_keys_insert {d : Dict κ ν} {k k' : κ} {v : ν}
    (h : k' ∈ (d.insert k v).map Prod.fst) : k' = k ∨ k' ∈ d.map Prod.fst := by
  obtain ⟨item, hitem, rfl⟩ := List.mem_map.mp h
  exact forall_mem_insert (p := fun item => item.1 = k ∨ item.1 ∈ d.map Prod.fst)
    (fun item hitem => .inr (List.mem_map_of_mem hitem)) (.inl rfl) item hitem

/-- An insertion keeps the keys different. -/
theorem KeysDiffer.insert {d : Dict κ ν} (h : KeysDiffer d) (k : κ) (v : ν) :
    KeysDiffer (d.insert k v) := by
  induction d with
  | nil => exact List.nodup_singleton k
  | cons item d ih =>
    rw [KeysDiffer, List.map_cons, List.nodup_cons] at h
    rw [Dict.insert]
    split
    · next heq =>
      rw [KeysDiffer, List.map_cons, List.nodup_cons]
      exact ⟨heq ▸ h.1, h.2⟩
    · next hne =>
      rw [KeysDiffer, List.map_cons, List.nodup_cons]
      refine ⟨fun hmem => ?_, ih h.2⟩
      rcases mem_keys_insert hmem with heq | hmem
      · exact hne heq
      · exact h.1 hmem

/-- So do several. -/
theorem KeysDiffer.update {d : Dict κ ν} (h : KeysDiffer d) (items : List (κ × ν)) :
    KeysDiffer (d.update items) := by
  induction items generalizing d with
  | nil => exact h
  | cons item items ih => exact ih (h.insert _ _)

/-- The items are what can be looked up. -/
theorem mem_iff_get {d : Dict κ ν} (h : KeysDiffer d) {k : κ} {v : ν} :
    (k, v) ∈ d ↔ d.get k = some v := by
  induction d with
  | nil => exact iff_of_false nofun nofun
  | cons item d ih =>
    rw [KeysDiffer, List.map_cons, List.nodup_cons] at h
    rw [List.mem_cons, get_cons]
    split
    · next heq =>
      -- No later item has this key.
      have hnot : (k, v) ∉ d := fun hmem => h.1 (heq ▸ List.mem_map_of_mem hmem)
      rw [or_iff_left hnot, Option.some.injEq, ← heq, Prod.ext_iff, and_iff_right rfl, eq_comm]
    · next hne =>
      rw [← ih h.2]
      exact or_iff_right fun heq => hne (congrArg Prod.fst heq).symm

/-- No two items have the same key. -/
theorem keysDiffer_ofItems (items : List (κ × ν)) : KeysDiffer (ofItems items) :=
  keysDiffer_nil.update items

/-- Items with new keys go to the end. -/
theorem update_eq_append {d : Dict κ ν} {items : List (κ × ν)} (h : KeysDiffer (d ++ items)) :
    d.update items = d ++ items := by
  induction items generalizing d with
  | nil => simp
  | cons item items ih =>
    have hnone : d.get item.1 = none := by
      rw [get_eq_none]
      rw [KeysDiffer, List.map_append, List.nodup_append] at h
      exact fun item' hmem heq => h.2.2 _ (List.mem_map_of_mem hmem) _ List.mem_cons_self heq
    have happend : d ++ item :: items = (d ++ [item]) ++ items := by simp
    rw [update_cons, insert_of_get_eq_none _ hnone, happend]
    exact ih (happend ▸ h)

/-- A dictionary is built from its items. -/
theorem ofItems_eq {d : Dict κ ν} (h : KeysDiffer d) : ofItems d = d := update_eq_append h

end Dict

end Text
