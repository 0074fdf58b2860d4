import Mathlib.Data.List.Nodup
import PageCompiler.Assoc

/-!
# `PageCompiler.Proofs.Assoc`: looking up what was inserted
-/

set_option autoImplicit false

namespace PageCompiler.Assoc

variable {α : Type}

/-- What is found under a key is one of the entries. -/
theorem mem_of_get? {m : Assoc α} {key : String} {a : α} (h : get? m key = some a) :
    (key, a) ∈ m := by
  obtain ⟨entry, hfind, rfl⟩ := Option.map_eq_some_iff.1 h
  have hkey : entry.1 = key := by simpa using List.find?_some hfind
  exact hkey ▸ List.mem_of_find?_eq_some hfind

theorem get?_cons (entry : String × α) (m : Assoc α) (key : String) :
    get? (entry :: m) key = if entry.1 = key then some entry.2 else get? m key := by
  by_cases h : entry.1 = key
  · simp [get?, h]
  · simp [get?, h]

/-- The entries in front are asked first. -/
theorem get?_append (m m' : Assoc α) (key : String) :
    get? (m ++ m') key = (get? m key).or (get? m' key) := by
  rw [get?, List.find?_append, Option.map_or]
  rfl

theorem has_iff {m : Assoc α} {key : String} : has m key = true ↔ key ∈ keys m := by
  simp [has, keys, List.any_eq_true]

/-- A key has no value exactly if nothing is found under it. -/
theorem get?_eq_none_iff {m : Assoc α} {key : String} : get? m key = none ↔ has m key = false := by
  simp [get?, has, List.find?_eq_none]

/-- Nothing is found under a name exactly if the name is not there. -/
theorem get?_eq_none_iff_not_mem {m : Assoc α} {key : String} :
    get? m key = none ↔ key ∉ keys m := by
  rw [get?_eq_none_iff, ← has_iff, Bool.not_eq_true]

/-- If no key is repeated, the entries are what is found. -/
theorem get?_eq_some_iff {m : Assoc α} (hnodup : (keys m).Nodup) {key : String} {a : α} :
    get? m key = some a ↔ (key, a) ∈ m := by
  refine ⟨mem_of_get?, fun hmem => ?_⟩
  cases hget : get? m key with
  | none =>
    have hkey : key ∈ keys m := List.mem_map.2 ⟨_, hmem, rfl⟩
    rw [get?_eq_none_iff, ← Bool.not_eq_true, has_iff] at hget
    exact absurd hkey hget
  | some b =>
    have hentry : (key, b) = (key, a) := List.inj_on_of_nodup_map hnodup (mem_of_get? hget) hmem rfl
    rw [(Prod.mk.inj hentry).2]

/-- The order of the entries plays no part if no key is repeated. -/
theorem get?_perm {m m' : Assoc α} (hperm : m'.Perm m) (hnodup : (keys m).Nodup) (key : String) :
    get? m' key = get? m key := by
  have hkeys : (keys m').Perm (keys m) := hperm.map Prod.fst
  ext a
  rw [get?_eq_some_iff hnodup, get?_eq_some_iff (hkeys.nodup_iff.2 hnodup), hperm.mem_iff]

/-- A new key goes to the end. -/
theorem insert_of_not_mem {m : Assoc α} {key : String} {a : α} (h : key ∉ keys m) :
    insert m key a = m ++ [(key, a)] := by
  induction m with
  | nil => rfl
  | cons entry m ih =>
    obtain ⟨k, b⟩ := entry
    rw [keys, List.map_cons, List.mem_cons, not_or] at h
    have hk : ¬(k == key) = true := by simpa using Ne.symm h.1
    rw [insert, if_neg hk, ih h.2]
    rfl

/-- What stands in a list after an insertion was inserted, or it stood there before. -/
theorem mem_insert {m : Assoc α} {key : String} {a : α} {entry : String × α}
    (h : entry ∈ insert m key a) : entry = (key, a) ∨ entry ∈ m := by
  induction m with
  | nil => exact .inl (List.mem_singleton.1 h)
  | cons first m ih =>
    rw [insert] at h
    split at h
    next hkey =>
      rw [← eq_of_beq hkey]
      exact (List.mem_cons.1 h).imp id (List.mem_cons_of_mem _)
    · rcases List.mem_cons.1 h with rfl | h
      · exact .inr List.mem_cons_self
      · exact (ih h).imp id (List.mem_cons_of_mem _)

/-- Putting a value under a key adds no other key. -/
theorem mem_keys_insert {m : Assoc α} {key name : String} {a : α} :
    name ∈ keys (insert m key a) ↔ name ∈ keys m ∨ name = key := by
  induction m with
  | nil => simp [insert, keys]
  | cons first m ih =>
    rw [insert]
    simp only [keys, List.map_cons, List.mem_cons] at ih ⊢
    split
    next hkey => rw [← eq_of_beq hkey, List.map_cons, List.mem_cons, or_right_comm, or_self]
    next => rw [List.map_cons, List.mem_cons, ih, or_assoc]

/-- A key that is there keeps its place. -/
theorem keys_insert_of_mem {m : Assoc α} {key : String} {a : α} (h : key ∈ keys m) :
    keys (insert m key a) = keys m := by
  induction m with
  | nil => cases h
  | cons first m ih =>
    rw [insert]
    split
    · rfl
    next hkey =>
      have hm : key ∈ keys m := (List.mem_cons.1 h).resolve_left fun heq => hkey (by simp [heq])
      simp only [keys, List.map_cons] at ih hm ⊢
      rw [ih hm]

/-- Putting a value under a key repeats none. -/
theorem nodup_keys_insert {m : Assoc α} (h : (keys m).Nodup) (key : String) (a : α) :
    (keys (insert m key a)).Nodup := by
  by_cases hkey : key ∈ keys m
  · rw [keys_insert_of_mem hkey]
    exact h
  · rw [insert_of_not_mem hkey, keys, List.map_append]
    exact List.concat_eq_append ▸ h.concat hkey

/-- No key is repeated if entries are inserted one after another. -/
theorem nodup_keys_ofPairs (pairs : List (String × α)) : (keys (ofPairs pairs)).Nodup := by
  have hfold : ∀ m : Assoc α, (keys m).Nodup →
      (keys (pairs.foldl (fun m entry => insert m entry.1 entry.2) m)).Nodup := by
    induction pairs with
    | nil => exact fun m hm => hm
    | cons entry pairs ih => exact fun m hm => ih _ (nodup_keys_insert hm entry.1 entry.2)
  exact hfold [] List.nodup_nil

/-- A key gives the value that was put under it last. -/
theorem get?_insert (m : Assoc α) (key key' : String) (a : α) :
    get? (insert m key a) key' = if key = key' then some a else get? m key' := by
  induction m with
  | nil =>
    by_cases h : key = key'
    · simp [insert, get?, h]
    · simp [insert, get?, h]
  | cons entry m ih =>
    obtain ⟨k, b⟩ := entry
    rw [insert]
    by_cases hk : k = key
    · subst hk
      by_cases h : k = key'
      · simp [get?, h]
      · simp [get?, h]
    · rw [if_neg (by simpa using hk)]
      by_cases h : k = key'
      · subst h
        simp [get?, Ne.symm hk]
      · rw [get?_cons, get?_cons, if_neg h, if_neg h, ih]

end PageCompiler.Assoc
