import LedgerIndex.Proofs.Table.Plan
import Mathlib.Data.List.Sort
import Mathlib.Data.Prod.Lex

/-!
# A plan is its winners

A plan names changes, but a page may hold the same change twice, so the places decide.  The sets of
a plan stand at the places where the greatest set of a key stands, the removals at the places where
the greatest change of all is a removal; the places ascend, and no others occur.  A plan is its own
plan (`Plan.ofChanges_winners`).
-/

namespace LedgerIndex

/-! ## Ranks -/

/-- Changes are ranked by checkpoint, then by their place on the page. -/
def Placed.rank (p : Placed) : Nat ×ₗ Nat := toLex (p.change.checkpoint.toNat, p.place)

theorem Placed.outranks_iff_rank_lt {a b : Placed} : a.outranks b ↔ b.rank < a.rank := by
  rw [outranks_iff, rank, rank, Prod.Lex.toLex_lt_toLex, UInt64.lt_iff_toNat_lt,
    ← UInt64.toNat_inj]

/-- A change stands on a page at its place. -/
def Placed.On (changes : List Change) (p : Placed) : Prop := changes[p.place]? = some p.change

/-- A change on a page is the greatest one of a kind to its key. -/
structure IsGreatest (kind : Change → Bool) (changes : List Change) (p : Placed) : Prop where
  on : p.On changes
  of_kind : kind p.change
  rank_le : ∀ q : Placed, q.On changes → kind q.change → q.change.key = p.change.key →
    q.rank ≤ p.rank

theorem Placed.On.eq_of_place {changes : List Change} {p q : Placed} (hp : p.On changes)
    (hq : q.On changes) (h : p.place = q.place) : p = q := by
  have hchange : some p.change = some q.change := by rw [← hp, ← hq, h]
  cases p
  cases q
  rw [Option.some.injEq] at hchange
  rw [Placed.mk.injEq]
  exact ⟨h, hchange⟩

/-- Places in order are known by which ones they are. -/
theorem Ascending.eq_of_mem_iff {ps qs : List Placed} (hps : Ascending ps) (hqs : Ascending qs)
    (h : ∀ p, p ∈ ps ↔ p ∈ qs) : ps = qs := by
  have : Std.Irrefl fun a b : Placed => a.place < b.place := ⟨fun a => Nat.lt_irrefl a.place⟩
  have : Std.Antisymm fun a b : Placed => a.place < b.place :=
    ⟨fun a b hab hba => absurd hab (Nat.lt_asymm hba)⟩
  exact List.Pairwise.eq_of_mem_iff hps hqs h

namespace Plan

theorem mem_placed {changes : List Change} {p : Placed} : p ∈ placed changes ↔ p.On changes := by
  rw [placed, List.mem_map]
  constructor
  · rintro ⟨⟨c, i⟩, hc, rfl⟩
    exact List.mem_zipIdx_iff_getElem?.1 hc
  · intro hp
    exact ⟨(p.change, p.place), List.mem_zipIdx_iff_getElem?.2 hp, rfl⟩

theorem isTop_filter_placed (kind : Change → Bool) (changes : List Change) (key : Key)
    {p : Placed} :
    IsTop p (((placed changes).filter fun p => p.change.key = key).filter fun p => kind p.change) ↔
      p.change.key = key ∧ IsGreatest kind changes p := by
  have hmem (q : Placed) :
      q ∈ ((placed changes).filter fun p => p.change.key = key).filter (fun p => kind p.change) ↔
        q.On changes ∧ q.change.key = key ∧ kind q.change := by
    rw [List.mem_filter, List.mem_filter, mem_placed, decide_eq_true_iff, and_assoc]
  constructor
  · rintro ⟨hp, htop⟩
    obtain ⟨hon, rfl, hkind⟩ := (hmem p).1 hp
    refine ⟨rfl, hon, hkind, fun q hq hqkind hqkey => ?_⟩
    rcases htop q ((hmem q).2 ⟨hq, hqkey, hqkind⟩) with rfl | hpq
    · exact le_refl _
    · exact (Placed.outranks_iff_rank_lt.1 hpq).le
  · rintro ⟨rfl, hp⟩
    refine ⟨(hmem p).2 ⟨hp.on, rfl, hp.of_kind⟩, fun q hq => ?_⟩
    obtain ⟨hon, hkey, hkind⟩ := (hmem q).1 hq
    rcases (hp.rank_le q hon hkind hkey).lt_or_eq with hlt | heq
    · exact Or.inr (Placed.outranks_iff_rank_lt.2 hlt)
    · exact Or.inl (hon.eq_of_place hp.on (congrArg (fun r => (ofLex r).2) heq))

/-! ## Places of a plan -/

/-- What is picked from the winners of each key, in the order of the page. -/
def chosen (pick : Winners → Option Placed) (changes : List Change) : List Placed :=
  ((Winners.ofPlaced (placed changes)).filterMap pick).mergeSort fun a b => a.place ≤ b.place

theorem sets_eq_map_chosen (changes : List Change) :
    (ofChanges changes).sets = (chosen (·.set) changes).map (·.change) := rfl

theorem removes_eq_map_chosen (changes : List Change) :
    (ofChanges changes).removes = (chosen (·.tombstone?) changes).map (·.change) := rfl

section Chosen

variable {pick : Winners → Option Placed} {changes : List Change} {wins : Placed → Prop}
variable (hon : ∀ p, wins p → p.On changes)
variable (hpick : ∀ key p,
  pick (Winners.among key (placed changes)) = some p ↔ p.change.key = key ∧ wins p)

include hon hpick

theorem mem_chosen {p : Placed} : p ∈ chosen pick changes ↔ wins p := by
  rw [chosen, List.mem_mergeSort, List.mem_filterMap]
  constructor
  · rintro ⟨w, hw, hp⟩
    rw [(Winners.mem_ofPlaced_iff.1 hw).2] at hp
    exact ((hpick _ _).1 hp).2
  · intro hp
    refine ⟨Winners.among p.change.key (placed changes), ?_, (hpick _ _).2 ⟨rfl, hp⟩⟩
    rw [Winners.mem_ofPlaced_iff, Winners.key_among]
    exact ⟨⟨p, mem_placed.2 (hon p hp), rfl⟩, rfl⟩

/-- What is chosen for different keys stands at different places. -/
theorem ascending_chosen : Ascending (chosen pick changes) := by
  have hkeys : ((chosen pick changes).map (·.change.key)).Nodup := by
    have h := nodup_keys_inOrder (Winners.nodup_keys_ofPlaced (placed changes))
      fun w hw p hp => by
        rw [(Winners.mem_ofPlaced_iff.1 hw).2] at hp
        exact ((hpick _ _).1 hp).1
    rwa [inOrder, List.map_map] at h
  have hsorted : (chosen pick changes).Pairwise fun a b => decide (a.place ≤ b.place) := by
    apply List.pairwise_mergeSort
    · intro a b c
      simp only [decide_eq_true_iff]
      exact Nat.le_trans
    · intro a b
      simp only [Bool.or_eq_true, decide_eq_true_iff]
      exact Nat.le_total ..
  refine (hsorted.and (List.pairwise_map.1 hkeys)).imp_of_mem fun {p q} hp hq h => ?_
  have hp := hon p ((mem_chosen hon hpick).1 hp)
  have hq := hon q ((mem_chosen hon hpick).1 hq)
  have hle : p.place ≤ q.place := of_decide_eq_true h.1
  exact lt_of_le_of_ne hle fun hplace => h.2 (by rw [hp.eq_of_place hq hplace])

/-- Where the change alone tells whether it wins, what is chosen can be read off the page. -/
theorem map_chosen {f : Change → Bool} (hwins : ∀ p, p.On changes → (wins p ↔ f p.change)) :
    (chosen pick changes).map (·.change) = changes.filter f := by
  have heq : chosen pick changes = (placed changes).filter fun p => f p.change := by
    apply (ascending_chosen hon hpick).eq_of_mem_iff ((ascending_placed changes).filter _)
    intro p
    rw [mem_chosen hon hpick, List.mem_filter, mem_placed]
    exact ⟨fun hp => ⟨hon p hp, (hwins p (hon p hp)).1 hp⟩, fun hp => (hwins p hp.1).2 hp.2⟩
  rw [heq, filter_placed_map_change]

end Chosen

/-- The sets of a plan are the greatest sets of their keys. -/
theorem set_among_iff {changes : List Change} {key : Key} {p : Placed} :
    (Winners.among key (placed changes)).set = some p ↔
      p.change.key = key ∧ IsGreatest (fun c => !c.isRemove) changes p := by
  rw [Winners.set_among, highest_eq_some_iff (((ascending_placed changes).filter _).filter _)]
  exact isTop_filter_placed (fun c => !c.isRemove) changes key

/-- The removals of a plan are the greatest changes of their keys. -/
theorem tombstone?_among_iff {changes : List Change} {key : Key} {p : Placed} :
    (Winners.among key (placed changes)).tombstone? = some p ↔
      p.change.key = key ∧ IsGreatest (fun _ => true) changes p ∧ p.change.isRemove := by
  have h := isTop_filter_placed (fun _ => true) changes key (p := p)
  rw [List.filter_true] at h
  rw [Winners.tombstone?_among (ascending_placed changes), h]
  tauto

/-! ## Planning a plan -/

theorem place_eq_of_key {l : List Change} (h : (l.map (·.key)).Nodup) {i j : Nat} {c d : Change}
    (hc : l[i]? = some c) (hd : l[j]? = some d) (hkey : c.key = d.key) : i = j := by
  have hi : (l.map (·.key))[i]? = some c.key := by rw [List.getElem?_map, hc]; rfl
  have hj : (l.map (·.key))[j]? = some c.key := by rw [List.getElem?_map, hd, hkey]; rfl
  exact (List.getElem?_inj (List.getElem?_eq_some_iff.1 hi).1 h).1 (hi.trans hj.symm)

/-- Sets followed by removals, one of each to a key, the removal not before the set. -/
structure Settled (sets removes : List Change) : Prop where
  isRemove_of_mem : ∀ r ∈ removes, r.isRemove
  not_isRemove_of_mem : ∀ s ∈ sets, s.isRemove = false
  nodup_sets : (sets.map (·.key)).Nodup
  nodup_removes : (removes.map (·.key)).Nodup
  checkpoint_le : ∀ s ∈ sets, ∀ r ∈ removes, s.key = r.key → s.checkpoint ≤ r.checkpoint

theorem settled_ofChanges (changes : List Change) :
    Settled (ofChanges changes).sets (ofChanges changes).removes where
  isRemove_of_mem _ hr := (mem_removes_iff.1 hr).1
  not_isRemove_of_mem _ hs := (mem_of_latestSetTo? (mem_sets_iff.1 hs)).2.2
  nodup_sets := nodup_keys_sets changes
  nodup_removes := nodup_keys_removes changes
  checkpoint_le _ hs _ hr hkey :=
    checkpoint_latestSetTo?_le (hkey ▸ mem_sets_iff.1 hs) (mem_removes_iff.1 hr).2

namespace Settled

variable {sets removes : List Change} (h : Settled sets removes) {p q : Placed}

include h

theorem on_iff : p.On (sets ++ removes) ↔
    (p.change.isRemove = false ∧ p.place < sets.length ∧ sets[p.place]? = some p.change) ∨
      (p.change.isRemove ∧ sets.length ≤ p.place ∧
        removes[p.place - sets.length]? = some p.change) := by
  rw [Placed.On]
  by_cases hp : p.place < sets.length
  · rw [List.getElem?_append_left hp]
    constructor
    · intro hs
      exact Or.inl ⟨h.not_isRemove_of_mem _ (List.mem_of_getElem? hs), hp, hs⟩
    · rintro (hs | hr)
      · exact hs.2.2
      · omega
  · rw [List.getElem?_append_right (by omega)]
    constructor
    · intro hr
      exact Or.inr ⟨h.isRemove_of_mem _ (List.mem_of_getElem? hr), by omega, hr⟩
    · rintro (hs | hr)
      · omega
      · exact hr.2.2

/-- A change on the page is known by its kind and its key. -/
theorem eq_of_key (hp : p.On (sets ++ removes)) (hq : q.On (sets ++ removes))
    (hkind : p.change.isRemove = q.change.isRemove) (hkey : p.change.key = q.change.key) :
    p = q := by
  apply hp.eq_of_place hq
  rcases h.on_iff.1 hp with ⟨hpk, hpl, hpc⟩ | ⟨hpk, hpl, hpc⟩ <;>
    rcases h.on_iff.1 hq with ⟨hqk, hql, hqc⟩ | ⟨hqk, hql, hqc⟩
  · exact place_eq_of_key h.nodup_sets hpc hqc hkey
  · rw [hpk, hqk] at hkind
    cases hkind
  · rw [hpk, hqk] at hkind
    cases hkind
  · have hplaces := place_eq_of_key h.nodup_removes hpc hqc hkey
    omega

/-- A removal is above the set of its key. -/
theorem rank_le (hp : p.On (sets ++ removes)) (hq : q.On (sets ++ removes))
    (hremove : p.change.isRemove) (hkey : q.change.key = p.change.key) : q.rank ≤ p.rank := by
  by_cases hkind : q.change.isRemove
  · rw [h.eq_of_key hq hp (hkind.trans hremove.symm) hkey]
  · obtain ⟨-, hql, hqc⟩ := (h.on_iff.1 hq).resolve_right fun hr => hkind hr.1
    obtain ⟨-, hpl, hpc⟩ := (h.on_iff.1 hp).resolve_left fun hs => by simp [hremove] at hs
    have hle := h.checkpoint_le _ (List.mem_of_getElem? hqc) _ (List.mem_of_getElem? hpc) hkey
    rw [UInt64.le_iff_toNat_le] at hle
    rw [Placed.rank, Placed.rank, Prod.Lex.toLex_le_toLex]
    rcases hle.lt_or_eq with hlt | heq
    · exact Or.inl hlt
    · exact Or.inr ⟨heq, by show q.place ≤ p.place; omega⟩

theorem isGreatest_set_iff (hp : p.On (sets ++ removes)) :
    IsGreatest (fun c => !c.isRemove) (sets ++ removes) p ↔ !p.change.isRemove := by
  refine ⟨fun hg => hg.of_kind, fun hset => ⟨hp, hset, fun q hq hqset hkey => ?_⟩⟩
  rw [Bool.not_eq_true'] at hset hqset
  rw [h.eq_of_key hq hp (hqset.trans hset.symm) hkey]

theorem isGreatest_remove_iff (hp : p.On (sets ++ removes)) :
    (IsGreatest (fun _ => true) (sets ++ removes) p ∧ p.change.isRemove) ↔ p.change.isRemove :=
  ⟨fun hg => hg.2, fun hr => ⟨⟨hp, rfl, fun _ hq _ hkey => h.rank_le hp hq hr hkey⟩, hr⟩⟩

/-- There is nothing to choose on such a page. -/
theorem ofChanges_append : ofChanges (sets ++ removes) = ⟨sets, removes⟩ := by
  have hsets : (ofChanges (sets ++ removes)).sets = sets := by
    have hmap := map_chosen (f := fun c => !c.isRemove) (fun _ hg => hg.on)
      (fun _ _ => set_among_iff) fun p hp => h.isGreatest_set_iff hp
    rw [sets_eq_map_chosen, hmap, List.filter_append,
      List.filter_eq_self.2 fun s hs => by simp [h.not_isRemove_of_mem s hs],
      List.filter_eq_nil_iff.2 fun r hr => by simp [h.isRemove_of_mem r hr], List.append_nil]
  have hremoves : (ofChanges (sets ++ removes)).removes = removes := by
    have hmap := map_chosen (f := fun c => c.isRemove) (fun _ hg => hg.1.on)
      (fun _ _ => tombstone?_among_iff) fun p hp => h.isGreatest_remove_iff hp
    rw [removes_eq_map_chosen, hmap, List.filter_append,
      List.filter_eq_nil_iff.2 fun s hs => by simp [h.not_isRemove_of_mem s hs],
      List.filter_eq_self.2 h.isRemove_of_mem, List.nil_append]
  exact congrArg₂ Plan.mk hsets hremoves

end Settled

/-- A plan holds the winners of a page and nothing else. -/
structure HoldsWinners (plan : Plan) (changes : List Change) : Prop where
  /-- the sets are the greatest sets of their keys, in the order of the page -/
  sets : ∃ ps : List Placed, plan.sets = ps.map (·.change) ∧ Ascending ps ∧
    ∀ p, p ∈ ps ↔ IsGreatest (fun c => !c.isRemove) changes p
  /-- the removals are the greatest changes of their keys, in the order of the page -/
  removes : ∃ ps : List Placed, plan.removes = ps.map (·.change) ∧ Ascending ps ∧
    ∀ p, p ∈ ps ↔ IsGreatest (fun _ => true) changes p ∧ p.change.isRemove
  /-- each key that is set on the page is set by the plan -/
  keys : ∀ key, key ∈ plan.sets.map (·.key) ↔
    key ∈ (changes.filter fun c => !c.isRemove).map (·.key)
  nodup_sets : (plan.sets.map (·.key)).Nodup
  nodup_removes : (plan.removes.map (·.key)).Nodup
  /-- planning the plan changes nothing -/
  again : ofChanges (plan.sets ++ plan.removes) = plan

/-- A plan holds, in the order of the page, the greatest set of each key and the removals that are
the greatest changes of all to their keys. -/
theorem ofChanges_winners (changes : List Change) : HoldsWinners (ofChanges changes) changes where
  sets := ⟨chosen (·.set) changes, rfl,
    ascending_chosen (fun _ hg => hg.on) fun _ _ => set_among_iff,
    fun _ => mem_chosen (fun _ hg => hg.on) fun _ _ => set_among_iff⟩
  removes := ⟨chosen (·.tombstone?) changes, rfl,
    ascending_chosen (fun _ hg => hg.1.on) fun _ _ => tombstone?_among_iff,
    fun _ => mem_chosen (fun _ hg => hg.1.on) fun _ _ => tombstone?_among_iff⟩
  keys _ := mem_keys_sets
  nodup_sets := nodup_keys_sets changes
  nodup_removes := nodup_keys_removes changes
  again := (settled_ofChanges changes).ofChanges_append

end Plan

end LedgerIndex
