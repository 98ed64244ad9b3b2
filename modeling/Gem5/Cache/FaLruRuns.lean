import Gem5.Cache.FaLruTracking
import Gem5.Lib.Runs

/-!
# Runs of the fully associative cache

The pointers spell a list of all blocks. A call moves at most one block, to the front or to the
back, and the boundaries, the masks and the table follow.
-/

namespace Gem5.Cache.FaLru

open Chains Past List Function Option

variable {e : Call × Option Nat} {addr : Addr} {secure : Bool}

variable {prm : Params} {lk : Links Nat} {c c' : FaLru} {l xs ys : List Nat} {blk : Nat}

theorem spells_before (h : Spells lk (xs ++ blk :: ys)) (notHead : xs ≠ []) :
    ∃ p, xs.getLast? = some p ∧ lk.prev blk = some p ∧ xs.head? = some lk.head := by
  obtain ⟨p, last⟩ := Option.isSome_iff_exists.mp (List.getLast?_isSome.mpr notHead)
  obtain ⟨-, prev, -⟩ := segment_append.mp h.segment
  rw [last] at prev
  have head := h.head
  rw [List.head?_append_of_ne_nil _ notHead] at head
  exact ⟨p, last, prev, head⟩

theorem spells_after (h : Spells lk (xs ++ blk :: ys)) (notTail : ys ≠ []) :
    ∃ n, ys.head? = some n ∧ lk.next blk = some n ∧ ys.getLast? = some lk.tail := by
  obtain ⟨n, first⟩ := Option.isSome_iff_exists.mp (List.isSome_head?.mpr notTail)
  obtain ⟨-, -, next, -⟩ := segment_append.mp h.segment
  rw [first] at next
  have tail := h.tail
  rw [List.getLast?_append_of_ne_nil _ (cons_ne_nil _ _), List.getLast?_cons] at tail
  obtain ⟨t, last⟩ := Option.isSome_iff_exists.mp (List.getLast?_isSome.mpr notTail)
  rw [last] at tail ⊢
  exact ⟨n, first, next, tail⟩

theorem relinkToHead_spells (h : Spells lk (xs ++ blk :: ys)) (notHead : xs ≠ []) :
    ∃ lk', relinkToHead lk blk = some lk' ∧ Spells lk' (blk :: (xs ++ ys)) := by
  obtain ⟨p, last, prev, head⟩ := spells_before h notHead
  obtain ⟨left, -, -, right⟩ := segment_append.mp h.segment
  have once := List.perm_middle.nodup_iff.mp h.once
  obtain ⟨apart, both⟩ := List.nodup_cons.mp once
  obtain ⟨onceL, onceR, disjoint⟩ := List.nodup_append.mp both
  have notL : blk ∉ xs := fun mem => apart (mem_append_left ys mem)
  have notR : blk ∉ ys := fun mem => apart (mem_append_right xs mem)
  have pIn : p ∈ xs := List.mem_of_getLast? last
  have headIn : lk.head ∈ xs := List.mem_of_head? head
  rw [relinkToHead]
  by_cases back : ys = []
  · subst back
    have tail : blk = lk.tail := by simpa using h.tail
    have next : lk.next blk = none := tail ▸ h.next_tail
    rw [if_pos tail, if_pos next, prev]
    have other : blk ≠ lk.head := fun same => notL (same ▸ headIn)
    refine ⟨_, rfl, ⟨once, rfl, ?_, ?_, ?_, ?_⟩⟩
    · simp [List.getLast?_cons, last]
    · simp [other]
    · simp [head]
    · rw [append_nil]
      exact ((((left.setNext_last last onceL).setNext notL).setPrev notL).setPrev_first head
        onceL).congr (fun _ _ => rfl) (fun _ _ => rfl)
  · obtain ⟨n, first, next, tail⟩ := spells_after h back
    have notTail : blk ≠ lk.tail := fun same => notR (same ▸ List.mem_of_getLast? tail)
    have nIn : n ∈ ys := List.mem_of_head? first
    have notRp : p ∉ ys := fun mem => disjoint p pIn p mem rfl
    have notLn : n ∉ xs := fun mem => disjoint n mem n nIn rfl
    have notRh : lk.head ∉ ys := fun mem => disjoint _ headIn _ mem rfl
    have between : (lk.setNext p (some n)).next blk = some n := by simp [next]
    rw [if_neg notTail, prev, next]
    simp only [bind_eq_bind, bind_some, between, setNext_prev, prev]
    have other : blk ≠ lk.head := fun same => notL (same ▸ headIn)
    refine ⟨_, rfl, ⟨once, rfl, ?_, ?_, ?_, ?_⟩⟩
    · simp [List.getLast?_cons, tail]
    · simp [other]
    · simp [head]
    · rw [segment_append, first, last]
      refine ⟨?_, ?_⟩
      · exact (((((left.setNext_last last onceL).setPrev notLn).setNext notL).setPrev notL).setPrev_first
          head onceL).congr (fun _ _ => rfl) (fun _ _ => rfl)
      · exact (((((right.setNext notRp).setPrev_first first onceR).setNext notR).setPrev notR).setPrev
          notRh).congr (fun _ _ => rfl) (fun _ _ => rfl)

theorem relinkToTail_spells (h : Spells lk (xs ++ blk :: ys)) (notTail : ys ≠ []) :
    ∃ lk', relinkToTail lk blk = some lk' ∧ Spells lk' (xs ++ (ys ++ [blk])) := by
  obtain ⟨n, first, next, tail⟩ := spells_after h notTail
  obtain ⟨left, -, -, right⟩ := segment_append.mp h.segment
  have moved := perm_toTail xs ys blk
  obtain ⟨apart, both⟩ := List.nodup_cons.mp (List.perm_middle.nodup_iff.mp h.once)
  obtain ⟨onceL, onceR, disjoint⟩ := List.nodup_append.mp both
  have notL : blk ∉ xs := fun mem => apart (mem_append_left ys mem)
  have notR : blk ∉ ys := fun mem => apart (mem_append_right xs mem)
  have nIn : n ∈ ys := List.mem_of_head? first
  have tailIn : lk.tail ∈ ys := List.mem_of_getLast? tail
  have other : blk ≠ lk.tail := fun same => notR (same ▸ tailIn)
  rw [relinkToTail]
  by_cases front : xs = []
  · subst front
    have head : blk = lk.head := by simpa using h.head
    have prev : lk.prev blk = none := head ▸ h.prev_head
    rw [if_pos head, if_pos prev, next]
    refine ⟨_, rfl, ⟨moved.nodup_iff.mp h.once, ?_, by simp, ?_⟩⟩
    · simp [first]
    · rw [nil_append, segment_append, segment_singleton, List.head?_cons, some_or, tail]
      refine ⟨?_, ?_, ?_⟩
      · exact ((((right.setPrev_first first onceR).setPrev notR).setNext notR).setNext_last tail
          onceR).congr (fun _ _ => rfl) (fun _ _ => rfl)
      · simp
      · simp [other]
  · obtain ⟨p, last, prev, head⟩ := spells_before h front
    have notHead : blk ≠ lk.head := fun same => notL (same ▸ List.mem_of_head? head)
    have pIn : p ∈ xs := List.mem_of_getLast? last
    have notRp : p ∉ ys := fun mem => disjoint p pIn p mem rfl
    have notLn : n ∉ xs := fun mem => disjoint n mem n nIn rfl
    have notLt : lk.tail ∉ xs := fun mem => disjoint _ mem _ tailIn rfl
    have between : (lk.setNext p (some n)).next blk = some n := by simp [next]
    rw [if_neg notHead, prev, next]
    simp only [bind_eq_bind, bind_some, between, setNext_prev, prev]
    refine ⟨_, rfl, ⟨moved.nodup_iff.mp h.once, ?_, by simp, ?_⟩⟩
    · simp [head]
    · rw [segment_append, segment_append, segment_singleton, List.head?_append, first, last,
        List.head?_cons, tail]
      refine ⟨?_, ?_, ?_, ?_⟩
      · exact (((((left.setNext_last last onceL).setPrev notLn).setPrev notL).setNext notL).setNext
          notLt).congr (fun _ _ => rfl) (fun _ _ => rfl)
      · exact (((((right.setNext notRp).setPrev_first first onceR).setPrev notR).setNext
          notR).setNext_last tail onceR).congr (fun _ _ => rfl) (fun _ _ => rfl)
      · simp
      · simp [other]

theorem linkLoop (lk : Links Nat) (k : Nat) :
    let lk' := (List.range' 1 k).foldl
      (fun lk i => (lk.setPrev i (some (i - 1))).setNext i (some (i + 1))) lk
    lk'.head = lk.head ∧ lk'.tail = lk.tail ∧
      ∀ x, lk'.prev x = (if 1 ≤ x ∧ x < 1 + k then some (x - 1) else lk.prev x) ∧
        lk'.next x = (if 1 ≤ x ∧ x < 1 + k then some (x + 1) else lk.next x) := by
  induction k with
  | zero => grind
  | succ k ih =>
    obtain ⟨head, tail, ptrs⟩ := ih
    rw [range'_concat, foldl_append]
    refine ⟨head, tail, fun x => ?_⟩
    simp only [List.foldl_cons, foldl_nil, setNext_prev, setPrev_prev, setNext_next, setPrev_next]
    by_cases own : x = 1 + k
    · subst own
      simp
    · grind

theorem three_le_numBlocks (prm : Params) : 3 ≤ prm.numBlocks := by
  have first := prm.lastPos_pos 0
  have inside := prm.lastPos_lt prm.numTrackedCaches_pos
  omega

theorem linkBlocks_spells (prm : Params) : Spells (linkBlocks prm) (List.range prm.numBlocks) := by
  have three := three_le_numBlocks prm
  obtain ⟨head, tail, ptrs⟩ := linkLoop ((Links.setPrev
    ⟨0, prm.numBlocks - 1, fun _ => none, fun _ => none⟩ 0 none).setNext 0 (some 1))
    (prm.numBlocks - 2)
  refine ⟨List.nodup_range, ?_, ?_, ?_⟩
  · rw [List.head?_range, if_neg (by omega)]
    exact congrArg some head.symm
  · rw [List.getLast?_range, if_neg (by omega)]
    exact congrArg some tail.symm
  · rw [range_eq_range', linkBlocks]
    refine segment_range' (fun _ => ?_) (fun x low high => ?_) (fun x low high => ?_) (fun _ => ?_)
    · rw [setNext_prev, setPrev_prev, if_neg (by omega), (ptrs 0).1, if_neg (by omega)]
      simp
    · rw [setNext_prev, setPrev_prev, (ptrs x).1]
      by_cases last : x = prm.numBlocks - 1
      · rw [if_pos last, last]
        congr 1
      · rw [if_neg last, if_pos (by omega)]
    · grind [setNext_next, setPrev_next]
    · rw [setNext_next, if_pos (by omega)]

/-- The list, the boundaries and the masks agree. -/
structure Listed (prm : Params) (c : FaLru) (l : List Nat) : Prop where
  spells : Spells c.links l
  all : l.Perm (List.range prm.numBlocks)
  slots : ∀ i, Slot prm l c.tracking i

theorem Listed.length (h : Listed prm c l) : l.length = prm.numBlocks := by
  simpa using h.all.length_eq

theorem Listed.mem (h : Listed prm c l) : blk ∈ l ↔ blk < prm.numBlocks := by
  rw [h.all.mem_iff, List.mem_range]

/-- The two calls have left the same blocks and the same table. -/
structure SameBlocks (c c' : FaLru) : Prop where
  tag : c'.tag = c.tag
  status : c'.status = c.status
  tagHash : c'.tagHash = c.tagHash

theorem moveToHead_listed (blk : Nat) (h : Listed prm c (xs ++ blk :: ys)) :
    ∃ c', moveToHead prm c blk = some c' ∧ Listed prm c' (blk :: (xs ++ ys)) ∧ SameBlocks c c' := by
  rw [moveToHead]
  by_cases front : xs = []
  · subst front
    have head : blk = c.links.head := by simpa using h.spells.head
    rw [if_neg (not_not_intro head)]
    exact ⟨c, rfl, h, rfl, rfl, rfl⟩
  · have other : blk ≠ c.links.head := by
      obtain ⟨p, last, prev, head⟩ := spells_before h.spells front
      intro same
      have none := h.spells.prev_head
      rw [← same, prev] at none
      cases none
    obtain ⟨trk, moved, slots⟩ :=
      moveBlockToHead_slots h.spells.segment h.spells.once front h.length h.slots
    obtain ⟨lk, linked, spells⟩ := relinkToHead_spells h.spells front
    rw [if_pos other, moved, linked]
    exact ⟨_, rfl, ⟨spells, List.perm_middle.symm.trans h.all, slots⟩, rfl, rfl, rfl⟩

theorem moveToTail_listed (blk : Nat) (h : Listed prm c (xs ++ blk :: ys)) :
    ∃ c', moveToTail prm c blk = some c' ∧ Listed prm c' (xs ++ (ys ++ [blk])) ∧ SameBlocks c c' := by
  rw [moveToTail]
  by_cases back : ys = []
  · subst back
    have tail : blk = c.links.tail := by simpa using h.spells.tail
    rw [if_neg (not_not_intro tail)]
    exact ⟨c, rfl, h, rfl, rfl, rfl⟩
  · have other : blk ≠ c.links.tail := by
      obtain ⟨n, first, next, tail⟩ := spells_after h.spells back
      intro same
      have none := h.spells.next_tail
      rw [← same, next] at none
      cases none
    obtain ⟨trk, moved, slots⟩ :=
      moveBlockToTail_slots h.spells.segment h.spells.once h.length h.slots
    obtain ⟨lk, linked, spells⟩ := relinkToTail_spells h.spells back
    rw [if_pos other, moved, linked]
    exact ⟨_, rfl, ⟨spells, (perm_toTail xs ys blk).symm.trans h.all, slots⟩, rfl, rfl, rfl⟩

theorem tagsInit_listed (prm : Params) : ∃ c, tagsInit prm = some c ∧
    Listed prm c (List.range prm.numBlocks) ∧ (∀ b, c.status b = 0) ∧ ∀ key, c.tagHash key = none := by
  have spells := linkBlocks_spells prm
  obtain ⟨trk, walked, slots⟩ := init_slots spells length_range
    ⟨fun _ => 0, fun _ => none, fun _ => 0, fun _ => 0, 0⟩
  rw [tagsInit, walked]
  exact ⟨_, rfl, ⟨spells, .refl _, slots⟩, fun _ => rfl, fun _ => rfl⟩

/-- The call used the block. -/
def Uses (blk : Nat) (e : Call × Option Nat) : Prop := e.2 = some blk

/-- Of two blocks the later one is not valid, or the earlier one is valid and was used after it. -/
def Ordered (past : List (Call × Option Nat)) (c : FaLru) (l : List Nat) : Prop :=
  l.Pairwise fun a b => c.isValid b = true → c.isValid a = true ∧ Since (Uses a) (Uses b) past

theorem Ordered.unused {past : List (Call × Option Nat)} (h : Ordered past c l) (none : e.2 = none)
    (valid : ∀ b ∈ l, c'.isValid b = c.isValid b) : Ordered (e :: past) c' l := by
  refine List.Pairwise.imp_of_mem (fun inA inB order validB => ?_) h
  rw [valid _ inB] at validB
  obtain ⟨validA, since⟩ := order validB
  refine ⟨(valid _ inA).trans validA, .inr ⟨fun uses => ?_, since⟩⟩
  rw [Uses, none] at uses
  cases uses

theorem Ordered.used {past : List (Call × Option Nat)}
    (h : Ordered past c (xs ++ blk :: ys)) (once : (xs ++ blk :: ys).Nodup) (uses : e.2 = some blk)
    (valid : c'.isValid blk = true) (others : ∀ b ≠ blk, c'.isValid b = c.isValid b) :
    Ordered (e :: past) c' (blk :: (xs ++ ys)) := by
  obtain ⟨apart, -⟩ := List.nodup_cons.mp (List.perm_middle.nodup_iff.mp once)
  have differ : ∀ b ∈ xs ++ ys, b ≠ blk := fun b mem same => apart (same ▸ mem)
  have rest : Ordered past c (xs ++ ys) :=
    h.sublist (List.Sublist.append_left (sublist_cons_self blk ys) xs)
  refine List.pairwise_cons.mpr ⟨fun b _ _ => ⟨valid, .inl uses⟩, ?_⟩
  refine List.Pairwise.imp_of_mem (fun inA inB order validB => ?_) rest
  rw [others _ (differ _ inB)] at validB
  obtain ⟨validA, since⟩ := order validB
  refine ⟨(others _ (differ _ inA)).trans validA, .inr ⟨fun other => ?_, since⟩⟩
  exact differ _ inB (Option.some.inj (other.symm.trans uses))

theorem Ordered.dropped {past : List (Call × Option Nat)}
    (h : Ordered past c (xs ++ blk :: ys)) (once : (xs ++ blk :: ys).Nodup) (none : e.2 = none)
    (invalid : c'.isValid blk = false) (others : ∀ b ≠ blk, c'.isValid b = c.isValid b) :
    Ordered (e :: past) c' (xs ++ (ys ++ [blk])) := by
  obtain ⟨apart, -⟩ := List.nodup_cons.mp (List.perm_middle.nodup_iff.mp once)
  have rest : Ordered past c (xs ++ ys) :=
    h.sublist (List.Sublist.append_left (sublist_cons_self blk ys) xs)
  have kept : Ordered (e :: past) c' (xs ++ ys) :=
    rest.unused none fun b mem => others b fun same => apart (same ▸ mem)
  rw [← List.append_assoc]
  refine List.pairwise_append.mpr ⟨kept, pairwise_singleton _ _, fun a _ b last validB => ?_⟩
  rw [List.mem_singleton.mp last, invalid] at validB
  cases validB

/-- The table maps exactly the valid blocks, by their tag and security. -/
structure Filled (prm : Params) (c : FaLru) : Prop where
  hash : ∀ key b, c.tagHash key = some b ↔
    b < prm.numBlocks ∧ c.isValid b = true ∧ (c.tag b, c.isSecure b) = key
  cleared : ∀ b, c.isValid b = false → c.status b = 0

theorem SameBlocks.isValid (h : SameBlocks c c') (b : Nat) : c'.isValid b = c.isValid b := by
  rw [FaLru.isValid, h.status]
  rfl

theorem SameBlocks.isSecure (h : SameBlocks c c') (b : Nat) : c'.isSecure b = c.isSecure b := by
  rw [FaLru.isSecure, h.status]
  rfl

theorem SameBlocks.filled (h : SameBlocks c c') (filled : Filled prm c) : Filled prm c' where
  hash key b := by
    rw [h.tagHash, h.isValid, h.isSecure, h.tag]
    exact filled.hash key b
  cleared b invalid := by
    rw [h.status]
    exact filled.cleared b ((h.isValid b).symm.trans invalid)

theorem findBlock_eq (h : Filled prm c) (addr : Addr) (secure : Bool) :
    findBlock prm c addr secure = some (c.tagHash (prm.extractTag addr, secure)) ∧
      ∀ b, c.tagHash (prm.extractTag addr, secure) = some b → b < prm.numBlocks ∧ c.isValid b = true := by
  rw [findBlock]
  cases found : c.tagHash (prm.extractTag addr, secure) with
  | none => exact ⟨rfl, fun b none => by cases none⟩
  | some b =>
    obtain ⟨inside, valid, key⟩ := (h.hash _ b).mp found
    obtain ⟨tag, sec⟩ := Prod.mk.inj key
    dsimp only
    rw [if_pos valid, if_pos ⟨tag, sec⟩]
    refine ⟨rfl, fun b' same => ?_⟩
    obtain rfl := Option.some.inj same
    exact ⟨inside, valid⟩

theorem insertTag_valid (c : FaLru) (blk : Nat) (tag : Addr) (secure : Bool) (b : Nat) :
    (c.insertTag blk tag secure).isValid b = if b = blk then true else c.isValid b := by
  rw [isValid, insertTag]
  dsimp only
  by_cases own : b = blk
  · rw [own, update_self, if_pos rfl]
    cases secure <;> rfl
  · rw [update_of_ne own, if_neg own]
    rfl

theorem insertTag_secure (c : FaLru) (blk : Nat) (tag : Addr) (secure : Bool) (b : Nat) :
    (c.insertTag blk tag secure).isSecure b = if b = blk then secure else c.isSecure b := by
  rw [isSecure, insertTag]
  dsimp only
  by_cases own : b = blk
  · rw [own, update_self, if_pos rfl]
    cases secure <;> rfl
  · rw [update_of_ne own, if_neg own]
    rfl

theorem Filled.enter (h : Filled prm c) {tag : Addr} {secure : Bool} (inside : blk < prm.numBlocks)
    (invalid : c.isValid blk = false) (absent : c.tagHash (tag, secure) = none) :
    Filled prm { c.insertTag blk tag secure with
      tagHash := Function.update c.tagHash (tag, secure) (some blk) } where
  hash key b := by
    change Function.update c.tagHash (tag, secure) (some blk) key = some b ↔
      b < prm.numBlocks ∧ (c.insertTag blk tag secure).isValid b = true ∧
        ((c.insertTag blk tag secure).tag b, (c.insertTag blk tag secure).isSecure b) = key
    rw [insertTag_valid, insertTag_secure, update_apply]
    by_cases own : b = blk
    · subst own
      have here : (c.insertTag b tag secure).tag b = tag := update_self _ _ _
      rw [if_pos rfl, if_pos rfl, here]
      constructor
      · intro found
        split at found
        · next same => exact ⟨inside, rfl, same.symm⟩
        · have was := ((h.hash key b).mp found).2.1
          rw [invalid] at was
          cases was
      · grind
    · have there : (c.insertTag blk tag secure).tag b = c.tag b := update_of_ne own _ _
      rw [if_neg own, if_neg own, there]
      by_cases same : key = (tag, secure)
      · rw [if_pos same]
        constructor
        · grind
        · intro found
          rw [← h.hash, same, absent] at found
          cases found
      · rw [if_neg same]
        exact h.hash key b
  cleared b none := by
    have was : c.isValid b = false ∧ b ≠ blk := by
      have valid := insertTag_valid c blk tag secure b
      by_cases own : b = blk
      · rw [if_pos own] at valid
        exact absurd (valid.symm.trans none) (by decide)
      · rw [if_neg own] at valid
        exact ⟨valid.symm.trans none, own⟩
    exact (update_of_ne was.2 _ _).trans (h.cleared b was.1)

theorem invalidateTag_valid (c : FaLru) (blk b : Nat) :
    (c.invalidateTag blk).isValid b = if b = blk then false else c.isValid b := by
  rw [isValid, invalidateTag]
  dsimp only
  by_cases own : b = blk
  · rw [own, update_self, if_pos rfl]
    rfl
  · rw [update_of_ne own, if_neg own]
    rfl

theorem Filled.leave (h : Filled prm c) (inside : blk < prm.numBlocks) (valid : c.isValid blk = true) :
    Filled prm { c.invalidateTag blk with
      tagHash := Function.update c.tagHash (c.tag blk, c.isSecure blk) none } where
  hash key b := by
    change Function.update c.tagHash (c.tag blk, c.isSecure blk) none key = some b ↔
      b < prm.numBlocks ∧ (c.invalidateTag blk).isValid b = true ∧
        ((c.invalidateTag blk).tag b, (c.invalidateTag blk).isSecure b) = key
    rw [invalidateTag_valid, update_apply]
    by_cases own : b = blk
    · subst own
      rw [if_pos rfl]
      constructor
      · intro found
        split at found
        · cases found
        · next other => exact absurd ((h.hash key b).mp found).2.2.symm other
      · rintro ⟨-, none, -⟩
        cases none
    · have tag : (c.invalidateTag blk).tag b = c.tag b := update_of_ne own _ _
      have secure : (c.invalidateTag blk).isSecure b = c.isSecure b :=
        congrArg (· &&& BlkSecure != 0) (update_of_ne own 0 c.status)
      rw [if_neg own, tag, secure]
      by_cases same : key = (c.tag blk, c.isSecure blk)
      · rw [if_pos same]
        constructor
        · intro found
          cases found
        · intro found
          have other := (h.hash key b).mpr found
          have this := (h.hash key blk).mpr ⟨inside, valid, same.symm⟩
          exact absurd (Option.some.inj (other.symm.trans this)) own
      · rw [if_neg same]
        exact h.hash key b
  cleared b none := by
    by_cases own : b = blk
    · subst own
      exact update_self _ _ _
    · have was := invalidateTag_valid c blk b
      rw [if_neg own] at was
      exact (update_of_ne own _ _).trans (h.cleared b (was.symm.trans none))

/-- The key of a valid block. -/
def entry (c : FaLru) (b : Nat) : Option (Addr × Bool) :=
  if c.isValid b then some (c.tag b, c.isSecure b) else none

theorem isValid_eq (c : FaLru) (b : Nat) : c.isValid b = (c.entry b).isSome := by
  rw [entry]
  cases c.isValid b <;> rfl

theorem SameBlocks.entry (h : SameBlocks c c') (b : Nat) : c'.entry b = c.entry b := by
  rw [FaLru.entry, h.isValid, h.tag, h.isSecure]
  rfl

theorem Filled.hash_iff (h : Filled prm c) (key : Addr × Bool) (b : Nat) :
    c.tagHash key = some b ↔ b < prm.numBlocks ∧ c.entry b = some key := by
  rw [h.hash, entry]
  cases c.isValid b <;> simp

theorem accessBlock_miss (filled : Filled prm c)
    (absent : c.tagHash (prm.extractTag addr, secure) = none) :
    accessBlock prm c addr secure
      = some ({ c with tracking := c.tracking.recordAccess prm none false }, none, 0) := by
  rw [accessBlock, (findBlock_eq filled addr secure).1, absent]
  rfl

theorem accessBlock_hit (listed : Listed prm c (xs ++ blk :: ys)) (filled : Filled prm c) (hit : c.tagHash (prm.extractTag addr, secure) = some blk) :
    ∃ c₁, moveToHead prm c blk = some c₁ ∧ Listed prm c₁ (blk :: (xs ++ ys)) ∧ SameBlocks c c₁ ∧
      accessBlock prm c addr secure
        = some ({ c₁ with tracking := c₁.tracking.recordAccess prm (some blk) true }, some blk,
          c.tracking.inCachesMask blk) := by
  obtain ⟨found, real⟩ := findBlock_eq filled addr secure
  obtain ⟨c₁, moved, listed', same⟩ := moveToHead_listed blk listed
  refine ⟨c₁, moved, listed', same, ?_⟩
  rw [accessBlock, found, hit]
  simp [(real blk hit).2, moved]

theorem insertBlock_back (listed : Listed prm c (xs ++ [blk])) (filled : Filled prm c) (invalid : c.isValid blk = false)
    (absent : c.tagHash (prm.extractTag addr, secure) = none) :
    ∃ c₁ c', moveToHead prm (c.insertTag blk (prm.extractTag addr) secure) blk = some c₁ ∧
      insertBlock prm c addr secure blk = some c' ∧ c'.tracking = c₁.tracking ∧
      Listed prm c' (blk :: xs) ∧ Filled prm c' ∧
      ∀ b, c'.entry b = if b = blk then some (prm.extractTag addr, secure) else c.entry b := by
  have inside := listed.mem.mp (mem_append_right xs (List.mem_singleton_self blk))
  have length := listed.length
  rw [length_append, length_singleton] at length
  have clear : c.tracking.inCachesMask blk = 0 := by
    refine BitVec.eq_of_getLsbD_eq fun i _ => ?_
    have last : (xs ++ [blk])[xs.length]? = some blk := by simp
    rw [(listed.slots i).bits _ _ last]
    by_cases tracked : i < prm.numTrackedCaches
    · have less := prm.lastPos_lt tracked
      have past : ¬ xs.length ≤ prm.lastPos i := by omega
      simp [past]
    · simp [tracked]
  obtain ⟨c₁, moved, listed', same⟩ := moveToHead_listed blk
    (c := c.insertTag blk (prm.extractTag addr) secure)
    (show Listed prm _ (xs ++ blk :: []) from ⟨listed.spells, listed.all, listed.slots⟩)
  rw [append_nil] at listed'
  have key : (c₁.tag blk, c₁.isSecure blk) = (prm.extractTag addr, secure) := by
    rw [same.isSecure, insertTag_secure, if_pos rfl, same.tag]
    exact congrArg (·, secure) (update_self _ _ _)
  have status := filled.cleared blk invalid
  have inserted : SameBlocks { c.insertTag blk (prm.extractTag addr) secure with
      tagHash := Function.update c.tagHash (prm.extractTag addr, secure) (some blk) }
      { c₁ with tagHash := Function.update c₁.tagHash (c₁.tag blk, c₁.isSecure blk) (some blk) } := by
    refine ⟨same.tag, same.status, ?_⟩
    rw [key, same.tagHash]
    rfl
  refine ⟨c₁, { c₁ with
      tagHash := Function.update c₁.tagHash (c₁.tag blk, c₁.isSecure blk) (some blk) }, moved, ?_,
    rfl, ⟨listed'.spells, listed'.all, listed'.slots⟩,
    inserted.filled (filled.enter inside invalid absent), fun b => ?_⟩
  · rw [insertBlock, if_pos ⟨clear, invalid, status⟩, moved]
    rfl
  · refine (inserted.entry b).trans ?_
    change (if (c.insertTag blk (prm.extractTag addr) secure).isValid b then _ else _) = _
    rw [insertTag_valid]
    by_cases own : b = blk
    · subst own
      rw [if_pos rfl, if_pos rfl, if_pos rfl]
      refine congrArg some (Prod.ext (update_self _ _ _) ?_)
      exact (insertTag_secure c b (prm.extractTag addr) secure b).trans (if_pos rfl)
    · rw [if_neg own, if_neg own, entry]
      refine if_congr Iff.rfl (congrArg some (Prod.ext (update_of_ne own _ _) ?_)) rfl
      exact (insertTag_secure c blk (prm.extractTag addr) secure b).trans (if_neg own)

theorem invalidate_listed (listed : Listed prm c (xs ++ blk :: ys)) (filled : Filled prm c)
    (valid : c.isValid blk = true) :
    ∃ c', invalidate prm c blk = some c' ∧
      moveToTail prm { c.invalidateTag blk with
        tagHash := Function.update c.tagHash (c.tag blk, c.isSecure blk) none } blk = some c' ∧
      Listed prm c' (xs ++ (ys ++ [blk])) ∧ Filled prm c' ∧
      ∀ b, c'.entry b = if b = blk then none else c.entry b := by
  have inside := listed.mem.mp (mem_append_right xs (List.mem_cons_self (l := ys)))
  have mapped := (filled.hash _ blk).mpr ⟨inside, valid, rfl⟩
  obtain ⟨c', moved, listed', same⟩ := moveToTail_listed blk
    (c := { c.invalidateTag blk with
      tagHash := Function.update c.tagHash (c.tag blk, c.isSecure blk) none })
    ⟨listed.spells, listed.all, listed.slots⟩
  have erased : (c.tagHash (c.tag blk, c.isSecure blk)).isSome = true := by
    rw [mapped]
    rfl
  refine ⟨c', ?_, moved, listed', same.filled (filled.leave inside valid), fun b => ?_⟩
  · rw [invalidate, if_pos ⟨erased, valid⟩, moved]
  · refine (same.entry b).trans ?_
    change (if (c.invalidateTag blk).isValid b then _ else _) = _
    rw [invalidateTag_valid]
    by_cases own : b = blk
    · rw [if_pos own, if_pos own]
      rfl
    · have secure : (c.invalidateTag blk).isSecure b = c.isSecure b :=
        congrArg (· &&& BlkSecure != 0) (update_of_ne own 0 c.status)
      rw [if_neg own, if_neg own, entry]
      exact if_congr Iff.rfl (congrArg some (Prod.ext (update_of_ne own _ _) secure)) rfl

/-- What holds after every call, the list being `l`. -/
structure Kept (prm : Params) (past : List (Call × Option Nat)) (c : FaLru) (l : List Nat) :
    Prop where
  listed : Listed prm c l
  filled : Filled prm c
  ordered : Ordered past c l

variable {past : List (Call × Option Nat)}

/-- A call goes through, and there is a list for the state after it. -/
def Goes (prm : Params) (past : List (Call × Option Nat)) (c : FaLru) (e : Call) : Prop :=
  ∃ c' o, call prm c e = some (c', o) ∧ ∃ l, Kept prm ((e, o) :: past) c' l

theorem accessBlock_goes (h : Kept prm past c l) (addr : Addr) (secure : Bool) :
    Goes prm past c (.accessBlock addr secure) := by
  rw [Goes, call]
  cases hit : c.tagHash (prm.extractTag addr, secure) with
  | none =>
    rw [accessBlock_miss h.filled hit]
    refine ⟨_, _, rfl, l, ⟨h.listed.spells, h.listed.all, fun i => ?_⟩, ⟨h.filled.hash, h.filled.cleared⟩,
      h.ordered.unused rfl fun _ _ => rfl⟩
    exact ⟨(h.listed.slots i).boundary, (h.listed.slots i).bits⟩
  | some blk =>
    obtain ⟨inside, valid, -⟩ := (h.filled.hash _ blk).mp hit
    obtain ⟨xs, ys, rfl⟩ := append_of_mem (h.listed.mem.mpr inside)
    obtain ⟨c', -, listed, same, accessed⟩ := accessBlock_hit h.listed h.filled hit
    simp only [accessed, valid, map_some, Option.filter]
    refine ⟨_, _, rfl, _, ⟨listed.spells, listed.all, fun i => ?_⟩, ?_, ?_⟩
    · exact ⟨(listed.slots i).boundary, (listed.slots i).bits⟩
    · have filled := same.filled h.filled
      exact ⟨filled.hash, filled.cleared⟩
    · refine h.ordered.used h.listed.spells.once rfl ?_ fun b _ => same.isValid b
      exact (same.isValid blk).trans valid

theorem insertBlock_goes (h : Kept prm past c l) (addr : Addr) (secure : Bool)
    (invalid : c.isValid c.findVictim = false) (absent : findBlock prm c addr secure = some none) :
    Goes prm past c (.insertBlock addr secure) := by
  obtain ⟨xs, rfl⟩ := List.getLast?_eq_some_iff.mp h.listed.spells.tail
  have free : c.tagHash (prm.extractTag addr, secure) = none := by
    rw [(findBlock_eq h.filled addr secure).1] at absent
    exact Option.some.inj absent
  obtain ⟨c₁, c', -, inserted, -, listed, filled, entries⟩ :=
    insertBlock_back h.listed h.filled invalid free
  rw [Goes, call, findVictim, inserted]
  refine ⟨_, _, rfl, _, listed, filled, ?_⟩
  have ordered : Ordered past c (xs ++ c.links.tail :: []) := h.ordered
  have valid : c'.isValid c.links.tail = true := by
    rw [isValid_eq, entries, if_pos rfl]
    rfl
  have others : ∀ b ≠ c.links.tail, c'.isValid b = c.isValid b := fun b other => by
    rw [isValid_eq, entries, if_neg other, ← isValid_eq]
  have used := ordered.used (e := (.insertBlock addr secure, some c.links.tail))
    h.listed.spells.once rfl valid others
  rwa [append_nil] at used

theorem invalidate_goes (h : Kept prm past c l) (inside : blk < prm.numBlocks)
    (valid : c.isValid blk = true) : Goes prm past c (.invalidate blk) := by
  obtain ⟨xs, ys, rfl⟩ := append_of_mem (h.listed.mem.mpr inside)
  obtain ⟨c', invalidated, -, listed, filled, entries⟩ := invalidate_listed h.listed h.filled valid
  rw [Goes, call, invalidated]
  refine ⟨_, _, rfl, _, listed, filled, ?_⟩
  refine h.ordered.dropped h.listed.spells.once rfl ?_ fun b other => ?_
  · rw [isValid_eq, entries, if_pos rfl]
    rfl
  · rw [isValid_eq, entries, if_neg other, ← isValid_eq]

theorem call_goes (h : Kept prm past c l) (e : Call) (offered : Offered prm c e) :
    Goes prm past c e := by
  cases e with
  | accessBlock addr secure => exact accessBlock_goes h addr secure
  | insertBlock addr secure => exact insertBlock_goes h addr secure offered.1 offered.2
  | invalidate => exact invalidate_goes h offered.1 offered.2

/-- The list, the boundaries, the masks and the table agree. -/
def Agrees (prm : Params) (past : List (Call × Option Nat)) (c : FaLru) : Prop :=
  ∃ l : List Nat, l.Perm (List.range prm.numBlocks) ∧ Spells c.links l ∧ Ordered past c l ∧
    c.links.prev c.links.head = none ∧ c.links.next c.links.tail = none ∧
    (∀ i < prm.numTrackedCaches, ∃ b, c.tracking.boundaries i = some b ∧
      l[prm.minTrackedSize * 2 ^ i / prm.blkSize - 1]? = some b) ∧
    (∀ j b, l[j]? = some b → ∀ i, (c.tracking.inCachesMask b).getLsbD i = true ↔
      i < prm.numTrackedCaches ∧ j ≤ prm.minTrackedSize * 2 ^ i / prm.blkSize - 1) ∧
    ∀ key b, c.tagHash key = some b ↔
      b < prm.numBlocks ∧ c.isValid b = true ∧ (c.tag b, c.isSecure b) = key

theorem Kept.agrees (h : Kept prm past c l) : Agrees prm past c := by
  refine ⟨l, h.listed.all, h.listed.spells, h.ordered, h.listed.spells.prev_head,
    h.listed.spells.next_tail, fun i tracked => ?_, fun j b at_ i => ?_, h.filled.hash⟩
  · have inside := prm.lastPos_lt tracked
    have length := h.listed.length
    have inside' : prm.lastPos i < l.length := by omega
    have at_ : l[prm.lastPos i]? = some l[prm.lastPos i] := List.getElem?_eq_getElem inside'
    exact ⟨_, ((h.listed.slots i).boundary tracked).trans at_, at_⟩
  · rw [(h.listed.slots i).bits j b at_, Bool.and_eq_true, decide_eq_true_iff, decide_eq_true_iff]
    rfl

/-- The cache is set up, and in every run of it the list, the boundaries, the masks and the table
agree and no call fails. -/
theorem run_agrees (prm : Params) : ∃ start, tagsInit prm = some start ∧
    ∀ c past, Logged (call prm) (Offered prm) start c past →
      Agrees prm past c ∧ ∀ e, Offered prm c e → (call prm c e).isSome = true := by
  obtain ⟨start, init, listed, cleared, empty⟩ := tagsInit_listed prm
  have invalid : ∀ b, start.isValid b = false := fun b => by
    rw [isValid, cleared]
    rfl
  have filled : Filled prm start := by
    refine ⟨fun key b => ?_, fun b _ => cleared b⟩
    rw [empty, invalid]
    simp
  have ordered : Ordered [] start (List.range prm.numBlocks) := by
    refine List.pairwise_iff_forall_sublist.mpr fun _ valid => ?_
    rw [invalid] at valid
    cases valid
  refine ⟨start, init, fun c past run => ?_⟩
  obtain ⟨l, kept⟩ := run.invariant (P := fun c past => ∃ l, Kept prm past c l)
    ⟨_, listed, filled, ordered⟩ fun c past e c' o kept offered taken => by
      obtain ⟨l, kept⟩ := kept
      obtain ⟨c'', o', went, l', next⟩ := call_goes kept e offered
      rw [went] at taken
      obtain ⟨rfl, rfl⟩ := Prod.mk.inj (Option.some.inj taken)
      exact ⟨l', next⟩
  refine ⟨kept.agrees, fun e offered => ?_⟩
  obtain ⟨c', o, went, -⟩ := call_goes kept e offered
  rw [went]
  rfl

/-- Four blocks of a byte; a cache of half the size is tracked. -/
def half : Params where
  size := 4
  blkSize := 1
  minTrackedSize := 2
  sizePow := ⟨2, rfl⟩
  blkPow := ⟨0, rfl⟩
  ranged := by decide
  whole := by decide
  twoBlocks := by decide
  below := by decide

/-- The first block inserted takes the last place, and the boundary moves one block up. -/
theorem run_agrees_half : ∃ start c, tagsInit half = some start ∧
    call half start (.insertBlock 7 false) = some (c, some 3) ∧
    Agrees half [(.insertBlock 7 false, some 3)] c ∧ c.tracking.boundaries 0 = some 0 := by
  obtain ⟨start, init, runs⟩ := run_agrees half
  obtain rfl : (tagsInit half).get rfl = start := Option.some.inj init
  have offered : Offered half ((tagsInit half).get rfl) (.insertBlock 7 false) := ⟨rfl, rfl⟩
  exact ⟨_, _, rfl, rfl, (runs _ _ (.log .start offered rfl)).1, rfl⟩

end Gem5.Cache.FaLru
