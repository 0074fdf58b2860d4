import Mathlib.Data.Finset.Card
import PageCompiler.Proofs.Assoc
import PageCompiler.Server.Sessions

/-!
# `PageCompiler.Proofs.Server.Sessions`: what the sessions remember of a run

A run is a list of operations: artifacts are put and asked for. Entries stand in the order in which
they were last put, so behind an entry stand exactly the sessions that were put after it. There is
room for a number of entries, and the first ones are dropped when there are more. So an entry is
dropped once as many other sessions were put after it as there is room for. `Standing` is this
account of an entry: `Standing.put` takes it one step further, and `Standing.run` through a run.
-/

set_option autoImplicit false

namespace PageCompiler

namespace Sessions

/-- What can be done with the sessions. -/
inductive Op where
  | put (id : String) (a : Artifact)
  | get (id : String)
  deriving DecidableEq, Repr

/-- The session that an operation writes to. -/
def Op.written? : Op → Option String
  | .put id _ => some id
  | .get _ => none

/-- The sessions behind an operation. Asking leaves them as they are. -/
def step (s : Sessions) : Op → Sessions
  | .put id a => s.put id a
  | .get _ => s

/-- The sessions behind operations. -/
def run (s : Sessions) (ops : List Op) : Sessions :=
  ops.foldl step s

/-- The different sessions that operations write to. -/
def written (ops : List Op) : Finset String :=
  (ops.filterMap Op.written?).toFinset

@[simp] theorem written_nil : written [] = ∅ := rfl

@[simp] theorem written_put (id : String) (a : Artifact) (ops : List Op) :
    written (.put id a :: ops) = insert id (written ops) := by
  simp [written, Op.written?]

@[simp] theorem written_get (id : String) (ops : List Op) :
    written (.get id :: ops) = written ops := rfl

/-! ### The order of entries -/

section Order

variable (m : Assoc Artifact) (id : String) (a : Artifact)

/-- Entries with one more, which comes last. -/
def withLast : Assoc Artifact :=
  m.filter (fun entry => entry.1 != id) ++ [(id, a)]

theorem entries_put (s : Sessions) :
    (s.put id a).entries =
      (withLast s.entries id a).drop ((withLast s.entries id a).length - s.capacity) := rfl

variable {m id a}

/-- Putting a session last loses none and adds only this one. -/
theorem mem_keys_withLast {key : String} :
    key ∈ Assoc.keys (withLast m id a) ↔ key = id ∨ key ∈ Assoc.keys m := by
  simp only [Assoc.keys, withLast, List.map_append, List.map_singleton, List.mem_append,
    List.mem_singleton, List.mem_map, List.mem_filter, bne_iff_ne]
  constructor
  · rintro (⟨entry, ⟨hentry, -⟩, rfl⟩ | rfl)
    · exact .inr ⟨entry, hentry, rfl⟩
    · exact .inl rfl
  · rintro (rfl | ⟨entry, hentry, rfl⟩)
    · exact .inr rfl
    · by_cases heq : entry.1 = id
      · exact .inr heq
      · exact .inl ⟨entry, ⟨hentry, heq⟩, rfl⟩

/-- No session is there twice. -/
theorem nodup_keys_withLast (h : (Assoc.keys m).Nodup) : (Assoc.keys (withLast m id a)).Nodup := by
  rw [Assoc.keys, withLast, List.map_append, List.nodup_append]
  refine ⟨h.sublist (List.filter_sublist.map _), List.nodup_singleton _, ?_⟩
  intro key hkey other hother
  obtain ⟨entry, hentry, rfl⟩ := List.mem_map.1 hkey
  have hne : entry.1 ≠ id := by
    simpa using (List.mem_filter.1 hentry).2
  exact List.mem_singleton.1 hother ▸ hne

/-- Sessions are known by what was put, though not all that was put is kept. -/
theorem mem_keys_put {s : Sessions} {key : String} (h : key ∈ Assoc.keys (s.put id a).entries) :
    key = id ∨ key ∈ Assoc.keys s.entries :=
  mem_keys_withLast.1 (((List.drop_sublist _ _).map Prod.fst).subset h)

theorem get?_of_not_mem {s : Sessions} (h : id ∉ Assoc.keys s.entries) : s.get? id = none :=
  Assoc.get?_eq_none_iff_not_mem.2 h

/-- What stands in front of an entry and behind it, when another one comes last. -/
theorem withLast_append_cons {older newer : Assoc Artifact} {other : String} (h : other ≠ id)
    (b : Artifact) :
    withLast (older ++ (id, a) :: newer) other b =
      older.filter (fun entry => entry.1 != other) ++ (id, a) :: withLast newer other b := by
  simp [withLast, h.symm]

end Order

/-! ### Room -/

/-- There are no more entries than there is room for, and no two for one session. -/
structure Bounded (s : Sessions) : Prop where
  size_le : s.size ≤ s.capacity
  nodup : (Assoc.keys s.entries).Nodup

/-- One more session keeps the bound. -/
theorem Bounded.put {s : Sessions} (h : s.Bounded) (id : String) (a : Artifact) :
    (s.put id a).Bounded where
  size_le := by
    rw [size, entries_put, List.length_drop]
    show _ ≤ s.capacity
    omega
  nodup := (nodup_keys_withLast h.nodup).sublist ((List.drop_sublist _ _).map _)

/-- So does any number of operations. -/
theorem Bounded.run {s : Sessions} (h : s.Bounded) (ops : List Op) : (s.run ops).Bounded := by
  induction ops generalizing s with
  | nil => exact h
  | cons op ops ih =>
    cases op with
    | put id a => exact ih (h.put id a)
    | get id => exact ih h

@[simp] theorem capacity_run (s : Sessions) (ops : List Op) :
    (s.run ops).capacity = s.capacity := by
  induction ops generalizing s with
  | nil => rfl
  | cons op ops ih =>
    cases op with
    | put id a => exact ih (s.put id a)
    | get id => exact ih s

/-! ### What becomes of an entry -/

/-- What became of the artifact `a` of a session `id`, where `others` are the sessions that were put
after it: it stands in front of them, or there was no room for it any more. -/
inductive Standing (s : Sessions) (id : String) (a : Artifact) (others : Finset String) : Prop where
  | kept (older newer : Assoc Artifact) (entries : s.entries = older ++ (id, a) :: newer)
      (nodup : (Assoc.keys newer).Nodup) (keys : (Assoc.keys newer).toFinset = others)
      (room : others.card < s.capacity)
  | dropped (gone : id ∉ Assoc.keys s.entries) (full : s.capacity ≤ others.card)

namespace Standing

variable {s : Sessions} {id : String} {a : Artifact} {others : Finset String}

/-- What is kept of entries for which there may be no room. -/
theorem of_drop {older newer : Assoc Artifact}
    (hentries : s.entries =
      (older ++ (id, a) :: newer).drop ((older ++ (id, a) :: newer).length - s.capacity))
    (hnodup : (Assoc.keys newer).Nodup) (hid : id ∉ Assoc.keys newer) :
    Standing s id a (Assoc.keys newer).toFinset := by
  have hcard : (Assoc.keys newer).toFinset.card = newer.length := by
    rw [List.toFinset_card_of_nodup hnodup, Assoc.keys, List.length_map]
  rw [List.length_append, List.length_cons] at hentries
  by_cases hroom : newer.length < s.capacity
  · rw [List.drop_append_of_le_length (by omega)] at hentries
    exact .kept _ newer hentries hnodup rfl (hcard ▸ hroom)
  · -- The first entries are dropped up to this one at least.
    have hdrop : older.length + (newer.length + 1) - s.capacity =
        older.length + (newer.length - s.capacity + 1) := by
      omega
    rw [hdrop, List.drop_length_add_append, List.drop_succ_cons] at hentries
    refine .dropped (fun hmem => hid ?_) (hcard ▸ Nat.le_of_not_lt hroom)
    rw [hentries] at hmem
    exact ((List.drop_sublist _ _).map Prod.fst).subset hmem

/-- An artifact that was just put is the last one. -/
theorem of_put (s : Sessions) (id : String) (a : Artifact) : Standing (s.put id a) id a ∅ :=
  of_drop (entries_put id a s) List.nodup_nil List.not_mem_nil

/-- Another session that is put comes behind all others, wherever it stood before. -/
theorem put (h : Standing s id a others) {other : String} (hother : other ≠ id) (hid : id ∉ others)
    (b : Artifact) : Standing (s.put other b) id a (insert other others) := by
  cases h with
  | kept older newer hentries hnodup hkeys _ =>
    subst hkeys
    have hbehind : insert other (Assoc.keys newer).toFinset =
        (Assoc.keys (withLast newer other b)).toFinset := by
      ext key
      rw [Finset.mem_insert, List.mem_toFinset, List.mem_toFinset, mem_keys_withLast]
    have hid : id ∉ Assoc.keys (withLast newer other b) := by
      rw [mem_keys_withLast, not_or]
      exact ⟨hother.symm, fun hmem => hid (List.mem_toFinset.2 hmem)⟩
    have hput := entries_put other b s
    rw [hentries, withLast_append_cons hother] at hput
    rw [hbehind]
    exact of_drop hput (nodup_keys_withLast hnodup) hid
  | dropped hgone hfull =>
    exact .dropped (fun hmem => (mem_keys_put hmem).elim hother.symm hgone)
      (hfull.trans (Finset.card_le_card (Finset.subset_insert other others)))

/-- The account of an entry through a run that does not write to its session. -/
theorem run (h : Standing s id a others) (hid : id ∉ others) {ops : List Op}
    (hops : id ∉ written ops) : Standing (s.run ops) id a (others ∪ written ops) := by
  induction ops generalizing s others with
  | nil =>
    rw [written_nil, Finset.union_empty]
    exact h
  | cons op ops ih =>
    cases op with
    | put other b =>
      rw [written_put, Finset.mem_insert, not_or] at hops
      have hother : other ≠ id := Ne.symm hops.1
      rw [written_put, Finset.union_insert, ← Finset.insert_union]
      exact ih (h.put hother hid b) (by simp [hid, hops.1]) hops.2
    | get other => exact ih h hid hops

/-- The answer for a session, as its last artifact stands. -/
theorem get?_eq (h : Standing s id a others) (hs : s.Bounded) :
    s.get? id = if others.card < s.capacity then some a else none := by
  cases h with
  | kept older newer hentries _ _ hroom =>
    have hfront : id ∉ Assoc.keys older := by
      have hnodup := hs.nodup
      rw [hentries, Assoc.keys, List.map_append, List.map_cons] at hnodup
      exact fun hmem => (List.nodup_append.1 hnodup).2.2 id hmem id List.mem_cons_self rfl
    have hnone : older.find? (fun entry => entry.1 == id) = none := by
      rw [List.find?_eq_none]
      intro entry hentry heq
      exact hfront (List.mem_map.2 ⟨entry, hentry, beq_iff_eq.1 heq⟩)
    rw [if_pos hroom, get?, Assoc.get?, hentries, List.find?_append, hnone, Option.none_or,
      List.find?_cons_of_pos (by simp)]
    rfl
  | dropped hgone hfull =>
    rw [if_neg (Nat.not_lt.2 hfull)]
    exact get?_of_not_mem hgone

end Standing

/-- Operations that do not write to a session do not bring it in. -/
theorem get?_run_of_not_written {s : Sessions} {id : String} {ops : List Op}
    (h : id ∉ written ops) (hs : id ∉ Assoc.keys s.entries) : (s.run ops).get? id = none := by
  induction ops generalizing s with
  | nil => exact get?_of_not_mem hs
  | cons op ops ih =>
    cases op with
    | put other b =>
      rw [written_put, Finset.mem_insert, not_or] at h
      exact ih h.2 fun hmem => (mem_keys_put hmem).elim h.1 hs
    | get other => exact ih h hs

/-- Asking plays no part in what is kept. -/
theorem run_filter_written (s : Sessions) (ops : List Op) :
    s.run (ops.filter fun op => op.written?.isSome) = s.run ops := by
  induction ops generalizing s with
  | nil => rfl
  | cons op ops ih =>
    cases op with
    | put id a => exact ih (s.put id a)
    | get id => exact ih s

/-- With room for some sessions one can start, and there are none at the start. -/
theorem create_of_pos {n : Nat} (h : 0 < n) :
    ∃ s, create n = .ok s ∧ s.capacity = n ∧ s.entries = [] :=
  ⟨{ capacity := n, entries := [] }, if_pos (Int.natCast_pos.2 h), rfl, rfl⟩

theorem bounded_of_nil {s : Sessions} (h : s.entries = []) : s.Bounded where
  size_le := by simp [size, h]
  nodup := by simp [Assoc.keys, h]

/-! ### One artifact more -/

/-- There is no room for a session that is not kept yet, and another one was put longest ago. -/
def GivesWay (s : Sessions) (id other : String) : Prop :=
  s.size = s.capacity ∧ s.get? id = none ∧ s.entries.head?.map Prod.fst = some other

instance (s : Sessions) (id other : String) : Decidable (s.GivesWay id other) :=
  inferInstanceAs (Decidable (_ ∧ _ ∧ _))

/-- Sessions that hold one artifact more. Its session is answered with it. All others are answered
as before, except for the one that gives way. -/
structure Gains (s : Sessions) (id : String) (a : Artifact) (s' : Sessions) : Prop where
  own : s'.get? id = some a
  others : ∀ other, other ≠ id →
    s'.get? other = if s.GivesWay id other then none else s.get? other

/-- The last entry does not answer for other sessions, and none of theirs was taken out for it. -/
theorem get?_withLast (m : Assoc Artifact) {id other : String} (a : Artifact) (h : other ≠ id) :
    Assoc.get? (withLast m id a) other = Assoc.get? m other := by
  induction m with
  | nil => rw [withLast, List.filter_nil, List.nil_append, Assoc.get?_cons, if_neg h.symm]
  | cons entry m ih =>
    rw [withLast] at ih ⊢
    by_cases hentry : entry.1 = id
    · rw [List.filter_cons_of_neg (by simp [hentry]), ih, Assoc.get?_cons,
        if_neg fun heq => h (heq.symm.trans hentry)]
    · rw [List.filter_cons_of_pos (by simp [hentry]), List.cons_append, Assoc.get?_cons, ih,
        Assoc.get?_cons]

theorem withLast_of_not_mem {m : Assoc Artifact} {id : String} (h : id ∉ Assoc.keys m)
    (a : Artifact) : withLast m id a = m ++ [(id, a)] := by
  rw [withLast, List.filter_eq_self.2]
  intro entry hentry
  rw [bne_iff_ne]
  rintro rfl
  exact h (List.mem_map_of_mem hentry)

/-- A session that is there already takes no room. -/
theorem length_withLast_le {m : Assoc Artifact} {id : String} (h : id ∈ Assoc.keys m)
    (a : Artifact) : (withLast m id a).length ≤ m.length := by
  obtain ⟨entry, hentry, rfl⟩ := List.mem_map.1 h
  rw [withLast, List.length_append, List.length_singleton]
  exact List.length_filter_lt_length_iff_exists.2 ⟨entry, hentry, by simp⟩

/-- What putting an artifact does to the answers, if there is room for any session at all. -/
theorem gains_put {s : Sessions} (hs : s.Bounded) (hroom : 0 < s.capacity) (id : String)
    (a : Artifact) : s.Gains id a (s.put id a) where
  own := by
    rw [(Standing.of_put s id a).get?_eq (hs.put id a), Finset.card_empty]
    exact if_pos hroom
  others other hother := by
    have hsize : s.entries.length ≤ s.capacity := hs.size_le
    rw [get?, entries_put]
    by_cases hid : id ∈ Assoc.keys s.entries
    · -- The session is there already, so nothing has to give way.
      have hlength := (length_withLast_le hid a).trans hsize
      rw [Nat.sub_eq_zero_of_le hlength, List.drop_zero, get?_withLast _ _ hother,
        if_neg fun h => Assoc.get?_eq_none_iff_not_mem.1 h.2.1 hid, get?]
    rw [withLast_of_not_mem hid, List.length_append, List.length_singleton]
    by_cases hfull : s.entries.length = s.capacity
    · -- The new session takes the room of the one that was put longest ago.
      have hdrop : s.entries.length + 1 - s.capacity = 1 := by omega
      rw [hdrop]
      cases hentries : s.entries with
      | nil =>
        rw [hentries, List.length_nil] at hfull
        omega
      | cons first m =>
        have hlast : Assoc.get? [(id, a)] other = none := by
          rw [Assoc.get?_cons, if_neg hother.symm]
          rfl
        have hsize : s.size = s.capacity := hfull
        have hgives : s.GivesWay id other ↔ first.1 = other := by
          simp [GivesWay, hsize, get?_of_not_mem hid, hentries]
        rw [List.cons_append, List.drop_one, List.tail_cons, Assoc.get?_append, hlast,
          Option.or_none, if_congr hgives rfl rfl, get?, hentries, Assoc.get?_cons]
        split
        next hfirst =>
          -- The first entry is dropped, and no other one answers for its session.
          have hnodup := hs.nodup
          rw [hentries, Assoc.keys, List.map_cons, List.nodup_cons, hfirst] at hnodup
          exact Assoc.get?_eq_none_iff_not_mem.2 hnodup.1
        next => rfl
    · have hroom' : s.entries.length + 1 - s.capacity = 0 := by omega
      rw [hroom', List.drop_zero, ← withLast_of_not_mem hid, get?_withLast _ _ hother,
        if_neg fun h => hfull h.1, get?]

end Sessions

open Sessions

/-- What the sessions hold after any operations. There is room for a positive number of sessions,
and never more are kept, nor two entries for one session. The answer for a session is its last
artifact if fewer other sessions than there is room for were put after it, and else there is none.
Asking does not matter. -/
theorem sessions_keep_latest {n : Nat} (hn : 0 < n) :
    ∃ s, Sessions.create n = .ok s ∧ ∀ ops : List Op,
      (s.run ops).size ≤ n ∧ (Assoc.keys (s.run ops).entries).Nodup ∧
      (∀ before id a after, ops = before ++ .put id a :: after → id ∉ written after →
        (s.run ops).get? id = if (written after).card < n then some a else none) ∧
      (∀ id, id ∉ written ops → (s.run ops).get? id = none) ∧
      s.run (ops.filter fun op => op.written?.isSome) = s.run ops := by
  obtain ⟨s, hs, hcapacity, hnil⟩ := create_of_pos hn
  refine ⟨s, hs, fun ops => ?_⟩
  have hbounded := (bounded_of_nil hnil).run ops
  have hroom : (s.run ops).capacity = n := (capacity_run s ops).trans hcapacity
  refine ⟨hbounded.size_le.trans_eq hroom, hbounded.nodup, ?_, ?_, run_filter_written s ops⟩
  · intro before id a after hops hafter
    have hrun : s.run ops = ((s.run before).put id a).run after := by
      rw [hops, Sessions.run, List.foldl_append]
      rfl
    have hstanding := (Standing.of_put (s.run before) id a).run (Finset.notMem_empty id) hafter
    rw [← hrun, Finset.empty_union] at hstanding
    rw [hstanding.get?_eq hbounded, hroom]
  · exact fun id hid => get?_run_of_not_written hid (by simp [Assoc.keys, hnil])

/-- The artifact of a page that has nothing but a title. -/
def titled (title : String) : Artifact := { (default : Artifact) with title }

/-- With room for two sessions, the first one is put again in time and the second one is not. -/
theorem sessions_keep_latest_two :
    ∃ s, Sessions.create 2 = .ok s ∧
      let s' := s.run [.put "a" (titled "a1"), .put "b" (titled "b1"), .get "b",
        .put "a" (titled "a2"), .get "a", .put "c" (titled "c1")]
      s'.get? "a" = some (titled "a2") ∧ s'.get? "b" = none ∧ s'.get? "d" = none := by
  obtain ⟨s, hs, h⟩ := sessions_keep_latest (n := 2) (by decide)
  refine ⟨s, hs, ?_, ?_, ?_⟩
  · exact (h _).2.2.1 [.put "a" (titled "a1"), .put "b" (titled "b1"), .get "b"] "a" _ _ rfl
      (by decide)
  · exact (h _).2.2.1 [.put "a" (titled "a1")] "b" _ _ rfl (by decide)
  · exact (h _).2.2.2.1 "d" (by decide)

end PageCompiler
