import LedgerIndex.Proofs.Table.Latest
import Mathlib.Data.List.Nodup

/-!
# What a plan holds

For each key a plan holds the latest set, and the latest change of all if that is a removal.
The winners are found by one walk over the page; `mem_ofPlaced_iff` says that the walk treats the
keys apart, so that what is known of the highest change of a list carries over to each key.
-/

namespace LedgerIndex

/-- The changes to one key, in the order of their arrival. -/
def changesTo (key : Key) (changes : List Change) : List Change :=
  changes.filter fun c => c.key = key

/-- The latest change to a key. -/
def latestTo? (key : Key) (changes : List Change) : Option Change :=
  latest? (changesTo key changes)

/-- The latest set of a key. -/
def latestSetTo? (key : Key) (changes : List Change) : Option Change :=
  latest? ((changesTo key changes).filter fun c => !c.isRemove)

theorem mem_changesTo {key : Key} {changes : List Change} {c : Change} :
    c ∈ changesTo key changes ↔ c ∈ changes ∧ c.key = key := by
  simp [changesTo]

theorem key_ne_of_not_mem {changes : List Change} {key : Key} (h : key ∉ changes.map (·.key)) :
    ∀ c ∈ changes, c.key ≠ key := by
  rintro c hc rfl
  exact h (List.mem_map_of_mem hc)

theorem changesTo_append (key : Key) (l r : List Change) :
    changesTo key (l ++ r) = changesTo key l ++ changesTo key r := List.filter_append ..

theorem mem_of_latestSetTo? {key : Key} {changes : List Change} {c : Change}
    (h : latestSetTo? key changes = some c) : c ∈ changes ∧ c.key = key ∧ c.isRemove = false := by
  have hc := mem_of_latest? h
  rw [List.mem_filter, mem_changesTo] at hc
  exact ⟨hc.1.1, hc.1.2, by simpa using hc.2⟩

theorem mem_of_latestTo? {key : Key} {changes : List Change} {c : Change}
    (h : latestTo? key changes = some c) : c ∈ changes ∧ c.key = key :=
  mem_changesTo.1 (mem_of_latest? h)

/-- If the latest change of all to a key is a set, then it is the latest set. -/
theorem latestSetTo?_of_latestTo? {key : Key} {changes : List Change} {c : Change}
    (h : latestTo? key changes = some c) (hc : c.isRemove = false) :
    latestSetTo? key changes = some c :=
  latest?_filter h (by simp [hc])

theorem checkpoint_latestSetTo?_le {key : Key} {changes : List Change} {s top : Change}
    (hs : latestSetTo? key changes = some s) (ht : latestTo? key changes = some top) :
    s.checkpoint ≤ top.checkpoint :=
  checkpoint_le_of_latest? ht (List.mem_filter.1 (mem_of_latest? hs)).1

/-! ## The walk over the page -/

namespace Winners

/-- The winner among the changes to one key. -/
def among (key : Key) (ps : List Placed) : Winners :=
  (ps.filter fun p => p.change.key = key).foldl add (none key)

@[simp] theorem key_add (w : Winners) (p : Placed) : (w.add p).key = w.key := by
  rw [add]; split <;> rfl

theorem key_foldl_add (w : Winners) (ps : List Placed) : (ps.foldl add w).key = w.key := by
  induction ps generalizing w with
  | nil => rfl
  | cons p ps ih => rw [List.foldl_cons, ih, key_add]

@[simp] theorem key_among (key : Key) (ps : List Placed) : (among key ps).key = key :=
  key_foldl_add ..

theorem among_append (key : Key) (ps : List Placed) (p : Placed) :
    among key (ps ++ [p]) =
      if p.change.key = key then (among key ps).add p else among key ps := by
  by_cases h : p.change.key = key <;> simp [among, h]

theorem mem_keys_enter {p : Placed} {ws : List Winners} {key : Key} :
    key ∈ (enter p ws).map (·.key) ↔ key ∈ ws.map (·.key) ∨ key = p.change.key := by
  induction ws with
  | nil => simp [enter, none]
  | cons w ws ih =>
    rw [enter]
    split
    · rename_i h
      simp only [List.map_cons, List.mem_cons, key_add, ← h]
      tauto
    · simp only [List.map_cons, List.mem_cons, ih, or_assoc]

theorem nodup_keys_enter {p : Placed} {ws : List Winners} (h : (ws.map (·.key)).Nodup) :
    ((enter p ws).map (·.key)).Nodup := by
  induction ws with
  | nil => simp [enter]
  | cons w ws ih =>
    rw [List.map_cons, List.nodup_cons] at h
    rw [enter]
    split
    · rw [List.map_cons, key_add, List.nodup_cons]
      exact h
    · rename_i hne
      rw [List.map_cons, List.nodup_cons, mem_keys_enter]
      exact ⟨fun hw => hw.elim h.1 hne, ih h.2⟩

/-- Entering a change touches the winners of its key only, which it finds or makes. -/
theorem mem_enter {p : Placed} {ws : List Winners} (hws : (ws.map (·.key)).Nodup) {w : Winners} :
    w ∈ enter p ws ↔ (w ∈ ws ∧ w.key ≠ p.change.key) ∨
      (∃ v ∈ ws, v.key = p.change.key ∧ w = v.add p) ∨
      (p.change.key ∉ ws.map (·.key) ∧ w = (none p.change.key).add p) := by
  induction ws with
  | nil => simp [enter]
  | cons v ws ih =>
    rw [List.map_cons, List.nodup_cons] at hws
    rw [enter]
    by_cases h : v.key = p.change.key
    · have hfresh : ∀ u ∈ ws, u.key ≠ p.change.key := fun u hu e =>
        hws.1 (h ▸ e ▸ List.mem_map_of_mem hu)
      rw [if_pos h, List.mem_cons]
      constructor
      · rintro (rfl | hw)
        · exact Or.inr (Or.inl ⟨v, List.mem_cons_self .., h, rfl⟩)
        · exact Or.inl ⟨List.mem_cons_of_mem _ hw, hfresh w hw⟩
      · rintro (⟨hw, hne⟩ | ⟨u, hu, huk, rfl⟩ | ⟨hno, -⟩)
        · rcases List.mem_cons.1 hw with rfl | hw
          · exact absurd h hne
          · exact Or.inr hw
        · rcases List.mem_cons.1 hu with rfl | hu
          · exact Or.inl rfl
          · exact absurd huk (hfresh u hu)
        · exact absurd (by simp [h]) hno
    · rw [if_neg h, List.mem_cons, ih hws.2]
      have h' : p.change.key ≠ v.key := fun e => h e.symm
      simp only [List.mem_cons, List.map_cons, h', false_or, exists_eq_or_imp, h, false_and]
      constructor
      · rintro (rfl | hw | hw)
        · exact Or.inl ⟨Or.inl rfl, h⟩
        · exact Or.inl ⟨Or.inr hw.1, hw.2⟩
        · exact Or.inr hw
      · rintro (⟨rfl | hw, hne⟩ | hw)
        · exact Or.inl rfl
        · exact Or.inr (Or.inl ⟨hw, hne⟩)
        · exact Or.inr (Or.inr hw)

theorem ofPlaced_append (ps : List Placed) (p : Placed) :
    ofPlaced (ps ++ [p]) = enter p (ofPlaced ps) := by
  simp [ofPlaced]

theorem nodup_keys_ofPlaced (ps : List Placed) : ((ofPlaced ps).map (·.key)).Nodup := by
  induction ps using List.reverseRecOn with
  | nil => simp [ofPlaced]
  | append_singleton ps p ih => rw [ofPlaced_append]; exact nodup_keys_enter ih

theorem mem_keys_ofPlaced {ps : List Placed} {key : Key} :
    key ∈ (ofPlaced ps).map (·.key) ↔ ∃ p ∈ ps, p.change.key = key := by
  induction ps using List.reverseRecOn with
  | nil => simp [ofPlaced]
  | append_singleton ps p ih =>
    rw [ofPlaced_append, mem_keys_enter, ih]
    constructor
    · rintro (⟨q, hq, rfl⟩ | rfl)
      · exact ⟨q, List.mem_append_left _ hq, rfl⟩
      · exact ⟨p, by simp, rfl⟩
    · rintro ⟨q, hq, rfl⟩
      rcases List.mem_append.1 hq with hq | hq
      · exact Or.inl ⟨q, hq, rfl⟩
      · exact Or.inr (by rw [List.mem_singleton.1 hq])

theorem among_of_forall_ne {key : Key} {ps : List Placed} (h : ∀ p ∈ ps, p.change.key ≠ key) :
    among key ps = none key := by
  rw [among, List.filter_eq_nil_iff.2 (by simpa using h), List.foldl_nil]

/-- The walk treats the keys apart: what it finds for a key is what the changes to that key alone
come to. -/
theorem mem_ofPlaced_iff {ps : List Placed} {w : Winners} :
    w ∈ ofPlaced ps ↔ (∃ p ∈ ps, p.change.key = w.key) ∧ w = among w.key ps := by
  induction ps using List.reverseRecOn generalizing w with
  | nil => simp [ofPlaced]
  | append_singleton ps p ih =>
    rw [ofPlaced_append, mem_enter (nodup_keys_ofPlaced ps), among_append, mem_keys_ofPlaced]
    by_cases hk : p.change.key = w.key
    · rw [if_pos hk]
      constructor
      · rintro (⟨-, hne⟩ | ⟨v, hv, hvk, hw⟩ | ⟨hno, hw⟩)
        · exact absurd hk.symm hne
        · have hvw : v.key = w.key := hvk.trans hk
          refine ⟨⟨p, by simp, hk⟩, ?_⟩
          rw [← hvw, ← (ih.1 hv).2]
          exact hw
        · refine ⟨⟨p, by simp, hk⟩, ?_⟩
          rw [← hk, among_of_forall_ne fun q hq e => hno ⟨q, hq, e⟩]
          exact hw
      · rintro ⟨-, hw⟩
        by_cases hex : ∃ q ∈ ps, q.change.key = w.key
        · exact Or.inr (Or.inl ⟨among w.key ps, ih.2 (by simpa using hex), by simp [hk], hw⟩)
        · refine Or.inr (Or.inr ⟨by rwa [hk], ?_⟩)
          rw [among_of_forall_ne fun q hq e => hex ⟨q, hq, e⟩, ← hk] at hw
          exact hw
    · rw [if_neg hk]
      constructor
      · rintro (⟨hw, -⟩ | ⟨v, -, hvk, rfl⟩ | ⟨-, rfl⟩)
        · obtain ⟨⟨q, hq, hqk⟩, hw⟩ := ih.1 hw
          exact ⟨⟨q, List.mem_append_left _ hq, hqk⟩, hw⟩
        · exact absurd (by simp [hvk]) hk
        · exact absurd (by simp [none]) hk
      · rintro ⟨⟨q, hq, hqk⟩, hw⟩
        refine Or.inl ⟨ih.2 ⟨?_, hw⟩, Ne.symm hk⟩
        rcases List.mem_append.1 hq with hq | hq
        · exact ⟨q, hq, hqk⟩
        · rw [List.mem_singleton.1 hq] at hqk
          exact absurd hqk hk

/-! ## The winners of one key -/

theorem set_foldl_add (w : Winners) (ps : List Placed) :
    (ps.foldl add w).set = (ps.filter fun p => !p.change.isRemove).foldl
      (fun best p => some (Placed.higher best p)) w.set := by
  induction ps generalizing w with
  | nil => rfl
  | cons p ps ih =>
    rw [List.foldl_cons, ih, add]
    by_cases h : p.change.isRemove <;> simp [h]

theorem remove_foldl_add (w : Winners) (ps : List Placed) :
    (ps.foldl add w).remove = (ps.filter fun p => p.change.isRemove).foldl
      (fun best p => some (Placed.higher best p)) w.remove := by
  induction ps generalizing w with
  | nil => rfl
  | cons p ps ih =>
    rw [List.foldl_cons, ih, add]
    by_cases h : p.change.isRemove <;> simp [h]

theorem set_among (key : Key) (ps : List Placed) :
    (among key ps).set =
      highest ((ps.filter fun p => p.change.key = key).filter fun p => !p.change.isRemove) :=
  set_foldl_add ..

theorem remove_among (key : Key) (ps : List Placed) :
    (among key ps).remove =
      highest ((ps.filter fun p => p.change.key = key).filter fun p => p.change.isRemove) :=
  remove_foldl_add ..

/-- A removal counts if it is the highest change of all to its key. -/
theorem tombstone?_among {ps : List Placed} (h : Ascending ps) {key : Key} {r : Placed} :
    (among key ps).tombstone? = some r ↔
      r.change.isRemove ∧ IsTop r (ps.filter fun p => p.change.key = key) := by
  set group := ps.filter fun p => p.change.key = key with hgroup
  have hgroup' : Ascending group := h.filter _
  have hset {s : Placed} : (among key ps).set = some s ↔
      IsTop s (group.filter fun p => !p.change.isRemove) := by
    rw [set_among, highest_eq_some_iff (hgroup'.filter _)]
  have hremove {s : Placed} : (among key ps).remove = some s ↔
      IsTop s (group.filter fun p => p.change.isRemove) := by
    rw [remove_among, highest_eq_some_iff (hgroup'.filter _)]
  constructor
  · intro ht
    have hr : (among key ps).remove = some r ∧
        ∀ s, (among key ps).set = some s → r.outranks s := by
      rw [tombstone?] at ht
      split at ht
      · rename_i r' s hr' hs
        split at ht
        · rename_i hrs
          cases ht
          exact ⟨hr', fun s' hs' => by rw [hs] at hs'; cases hs'; exact hrs⟩
        · cases ht
      · rename_i r' hs
        exact ⟨ht, fun s' hs' => by rw [hs] at hs'; cases hs'⟩
      · cases ht
    obtain ⟨hmem, htop⟩ := hremove.1 hr.1
    rw [List.mem_filter] at hmem
    refine ⟨hmem.2, hmem.1, fun q hq => ?_⟩
    by_cases hq' : q.change.isRemove
    · exact htop q (List.mem_filter.2 ⟨hq, hq'⟩)
    · -- a set is outranked by the highest set, which the removal outranks
      have hqs : q ∈ group.filter fun p => !p.change.isRemove :=
        List.mem_filter.2 ⟨hq, by simpa using hq'⟩
      cases hs : (among key ps).set with
      | none =>
        rw [set_among, ← hgroup, highest_eq_none] at hs
        rw [hs] at hqs
        cases hqs
      | some s =>
        rcases (hset.1 hs).2 q hqs with rfl | hsq
        · exact Or.inr (hr.2 q hs)
        · exact Or.inr (Placed.outranks_trans (hr.2 s hs) hsq)
  · rintro ⟨hrem, hmem, htop⟩
    have hr : (among key ps).remove = some r :=
      hremove.2 ⟨List.mem_filter.2 ⟨hmem, hrem⟩, fun q hq => htop q (List.mem_of_mem_filter hq)⟩
    rw [tombstone?, hr]
    cases hs : (among key ps).set with
    | none => rfl
    | some s =>
      obtain ⟨hsm, -⟩ := hset.1 hs
      rw [List.mem_filter] at hsm
      rcases htop s hsm.1 with rfl | hrs
      · rw [hrem] at hsm; exact absurd hsm.2 (by simp)
      · simp [hrs]

end Winners

/-! ## The plan -/

namespace Plan

theorem ascending_placed (changes : List Change) : Ascending (placed changes) := by
  have h : ((placed changes).map (·.place)).Pairwise (· < ·) := by
    have hmap : (placed changes).map (·.place) = List.range' 0 changes.length := by
      rw [placed, List.map_map, ← List.zipIdx_map_snd]
      rfl
    rw [hmap]
    exact List.pairwise_lt_range'
  exact List.pairwise_map.1 h

theorem placed_map_change (changes : List Change) : (placed changes).map (·.change) = changes := by
  rw [placed, List.map_map]
  exact List.zipIdx_map_fst 0 changes

theorem filter_placed_map_change (f : Change → Bool) (changes : List Change) :
    ((placed changes).filter fun p => f p.change).map (·.change) = changes.filter f := by
  conv_rhs => rw [← placed_map_change changes, List.filter_map]
  rfl

theorem mem_inOrder {ps : List Placed} {c : Change} : c ∈ inOrder ps ↔ ∃ p ∈ ps, p.change = c := by
  simp [inOrder, List.mem_mergeSort]

theorem perm_inOrder (ps : List Placed) : (inOrder ps).Perm (ps.map (·.change)) :=
  (List.mergeSort_perm ..).map _

/-- Winners with different keys give changes of different keys. -/
theorem nodup_keys_inOrder {ws : List Winners} (hws : (ws.map (·.key)).Nodup)
    {pick : Winners → Option Placed}
    (hpick : ∀ w ∈ ws, ∀ p, pick w = some p → p.change.key = w.key) :
    ((inOrder (ws.filterMap pick)).map (·.key)).Nodup := by
  rw [((perm_inOrder _).map _).nodup_iff, List.map_map]
  rw [List.Nodup, List.pairwise_map] at hws ⊢
  rw [List.pairwise_filterMap]
  refine hws.imp_of_mem fun {v w} hv hw hne p hp q hq e => hne ?_
  rw [← hpick v hv p hp, ← hpick w hw q hq]
  exact e

/-- What is picked from the winners is picked from those of some key. -/
theorem mem_inOrder_filterMap {changes : List Change} {pick : Winners → Option Placed}
    {c : Change} :
    c ∈ inOrder ((Winners.ofPlaced (placed changes)).filterMap pick) ↔
      ∃ key, (∃ d ∈ changes, d.key = key) ∧
        (pick (Winners.among key (placed changes))).map (·.change) = some c := by
  have hkeys (key : Key) :
      (∃ p ∈ placed changes, p.change.key = key) ↔ ∃ d ∈ changes, d.key = key := by
    conv_rhs => rw [← placed_map_change changes]
    simp
  rw [mem_inOrder]
  constructor
  · rintro ⟨p, hp, rfl⟩
    obtain ⟨w, hw, hpick⟩ := List.mem_filterMap.1 hp
    obtain ⟨hex, hwe⟩ := Winners.mem_ofPlaced_iff.1 hw
    exact ⟨w.key, (hkeys _).1 hex, by rw [← hwe, hpick]; rfl⟩
  · rintro ⟨key, hex, hpick⟩
    obtain ⟨p, hp, hpc⟩ := Option.map_eq_some_iff.1 hpick
    have hw : Winners.among key (placed changes) ∈ Winners.ofPlaced (placed changes) :=
      Winners.mem_ofPlaced_iff.2 ⟨by simpa using (hkeys key).2 hex, by simp⟩
    exact ⟨p, List.mem_filterMap.2 ⟨_, hw, hp⟩, hpc⟩

theorem set_among_placed (key : Key) (changes : List Change) :
    (Winners.among key (placed changes)).set.map (·.change) = latestSetTo? key changes := by
  have hasc : Ascending (((placed changes).filter fun p => p.change.key = key).filter
      fun p => !p.change.isRemove) := ((ascending_placed changes).filter _).filter _
  rw [Winners.set_among, highest_map_change hasc, List.filter_filter,
    filter_placed_map_change (fun c => !c.isRemove && decide (c.key = key)), latestSetTo?,
    changesTo, List.filter_filter]

theorem tombstone?_among_placed {key : Key} {changes : List Change} {c : Change} :
    (Winners.among key (placed changes)).tombstone?.map (·.change) = some c ↔
      c.isRemove ∧ latestTo? key changes = some c := by
  have hasc : Ascending ((placed changes).filter fun p => p.change.key = key) :=
    (ascending_placed changes).filter _
  have hmap := filter_placed_map_change (fun c => decide (c.key = key)) changes
  rw [Option.map_eq_some_iff]
  constructor
  · rintro ⟨p, hp, rfl⟩
    obtain ⟨hrem, htop⟩ := (Winners.tombstone?_among (ascending_placed changes)).1 hp
    refine ⟨hrem, ?_⟩
    rw [latestTo?, changesTo, ← hmap]
    exact latest?_of_isTop hasc htop
  · rintro ⟨hrem, hc⟩
    rw [latestTo?, changesTo, ← hmap, ← highest_map_change hasc] at hc
    obtain ⟨p, hp, rfl⟩ := Option.map_eq_some_iff.1 hc
    exact ⟨p, (Winners.tombstone?_among (ascending_placed changes)).2
      ⟨hrem, isTop_highest hasc hp⟩, rfl⟩

/-- A set is planned if it is the latest set of its key. -/
theorem mem_sets_iff {changes : List Change} {c : Change} :
    c ∈ (ofChanges changes).sets ↔ latestSetTo? c.key changes = some c := by
  rw [ofChanges, mem_inOrder_filterMap]
  constructor
  · rintro ⟨key, -, hc⟩
    rw [set_among_placed] at hc
    rwa [(mem_of_latestSetTo? hc).2.1]
  · intro hc
    exact ⟨c.key, ⟨c, (mem_of_latestSetTo? hc).1, rfl⟩, by rwa [set_among_placed]⟩

/-- A removal is planned if it is the latest change of all to its key. -/
theorem mem_removes_iff {changes : List Change} {c : Change} :
    c ∈ (ofChanges changes).removes ↔ c.isRemove ∧ latestTo? c.key changes = some c := by
  rw [ofChanges, mem_inOrder_filterMap]
  constructor
  · rintro ⟨key, -, hc⟩
    rw [tombstone?_among_placed] at hc
    rwa [(mem_of_latestTo? hc.2).2]
  · intro hc
    exact ⟨c.key, ⟨c, (mem_of_latestTo? hc.2).1, rfl⟩, tombstone?_among_placed.2 hc⟩

/-- Among what is planned, the change of a key is the one that is planned for the key. -/
theorem find?_planned {planned : List Change} (pick : Key → Option Change)
    (hmem : ∀ c, c ∈ planned ↔ pick c.key = some c)
    (hkey : ∀ key c, pick key = some c → c.key = key) (key : Key) :
    (planned.find? fun c => c.key = key) = pick key := by
  cases hfind : planned.find? fun c => c.key = key with
  | some c =>
    have hk : c.key = key := by simpa using List.find?_some hfind
    rw [← hk, (hmem c).1 (List.mem_of_find?_eq_some hfind)]
  | none =>
    refine Eq.symm (Option.eq_none_iff_forall_ne_some.2 fun c hc => ?_)
    have hk := hkey key c hc
    rw [← hk] at hc
    simpa [hk] using List.find?_eq_none.1 hfind c ((hmem c).2 hc)

theorem find?_sets (changes : List Change) (key : Key) :
    ((ofChanges changes).sets.find? fun c => c.key = key) = latestSetTo? key changes :=
  find?_planned _ (fun _ => mem_sets_iff) (fun _ _ h => (mem_of_latestSetTo? h).2.1) key

theorem find?_removes (changes : List Change) (key : Key) :
    ((ofChanges changes).removes.find? fun c => c.key = key) =
      (latestTo? key changes).filter (·.isRemove) := by
  refine find?_planned (fun key => (latestTo? key changes).filter (·.isRemove))
    (fun c => ?_) (fun key c h => ?_) key
  · rw [mem_removes_iff, Option.filter_eq_some_iff, and_comm]
  · exact (mem_of_latestTo? (Option.filter_eq_some_iff.1 h).1).2

theorem nodup_keys_sets (changes : List Change) :
    ((ofChanges changes).sets.map (·.key)).Nodup := by
  refine nodup_keys_inOrder (Winners.nodup_keys_ofPlaced _) fun w hw p hp => ?_
  have hset := set_among_placed w.key changes
  rw [← (Winners.mem_ofPlaced_iff.1 hw).2, hp] at hset
  exact (mem_of_latestSetTo? hset.symm).2.1

theorem nodup_keys_removes (changes : List Change) :
    ((ofChanges changes).removes.map (·.key)).Nodup := by
  refine nodup_keys_inOrder (Winners.nodup_keys_ofPlaced _) fun w hw p hp => ?_
  have htomb : (Winners.among w.key (placed changes)).tombstone?.map (·.change) =
      some p.change := by
    rw [← (Winners.mem_ofPlaced_iff.1 hw).2, hp]
    rfl
  exact (mem_of_latestTo? (tombstone?_among_placed.1 htomb).2).2

/-- A plan has a set of a key exactly if the page has one. -/
theorem mem_keys_sets {changes : List Change} {key : Key} :
    key ∈ (ofChanges changes).sets.map (·.key) ↔
      key ∈ (changes.filter fun c => !c.isRemove).map (·.key) := by
  constructor
  · intro h
    obtain ⟨c, hc, rfl⟩ := List.mem_map.1 h
    obtain ⟨hmem, -, hset⟩ := mem_of_latestSetTo? (mem_sets_iff.1 hc)
    exact List.mem_map.2 ⟨c, List.mem_filter.2 ⟨hmem, by simp [hset]⟩, rfl⟩
  · intro h
    obtain ⟨c, hc, rfl⟩ := List.mem_map.1 h
    obtain ⟨hmem, hset⟩ := List.mem_filter.1 hc
    have hsome : latestSetTo? c.key changes ≠ none := by
      intro hnone
      have hc' : c ∈ (changesTo c.key changes).filter fun c => !c.isRemove :=
        List.mem_filter.2 ⟨mem_changesTo.2 ⟨hmem, rfl⟩, hset⟩
      rw [latest?_eq_none.1 hnone] at hc'
      cases hc'
    obtain ⟨s, hs⟩ := Option.ne_none_iff_exists'.1 hsome
    have hk : s.key = c.key := (mem_of_latestSetTo? hs).2.1
    exact List.mem_map.2 ⟨s, mem_sets_iff.2 (by rwa [hk]), hk⟩

end Plan

end LedgerIndex
