import Gem5.Minor.Decode
import Mathlib.Order.Lattice.Nat

/-!
# Decode expands its input

A thread of Decode is a queue of the instructions that are still to come out: the
expansions of what its input buffer holds, without the micro-ops that are out already. A
turn of the packing loop takes the front of that queue, or a bubble that is not in it.
-/

namespace Gem5.Minor

open List

open FlexCPU (PCState)

variable {ι : Type}

section Spec

/-- The program counters of the micro-ops of a macro-op. -/
def StaticInsts.microPC (isa : StaticInsts ι) (si : ι) (pc : PCState) : Nat → PCState
  | 0 => pc
  | k + 1 =>
    let at_ := StaticInsts.microPC isa si pc k
    isa.advancePC (isa.fetchMicroop si at_.upc) at_

variable (isa : StaticInsts ι)

def StaticInsts.isLastAt (si : ι) (k : Nat) : Bool :=
  isa.isLastMicroop (isa.fetchMicroop si (BitVec.ofNat 16 k))

/-- The first last micro-op. -/
noncomputable def StaticInsts.lastMicroop (si : ι) : Nat := sInf {k | isa.isLastAt si k = true}

/-- The macro-op has a last micro-op, up to which the micro-PC counts from 0. -/
def StaticInsts.Counts (si : ι) (pc : PCState) : Prop :=
  ∃ n, isa.isLastAt si n = true ∧ ∀ k ≤ n, (isa.microPC si pc k).upc = BitVec.ofNat 16 k

/-- What Fetch2 promises of its instructions, and the ISA of its macro-ops. -/
structure FetchedInst.Sound (x : FetchedInst ι) : Prop where
  staticInst : x.isFault = false → x.staticInst.isSome = true
  counts : ∀ si, x.staticInst = some si → isa.isMacroop si = true → isa.Counts si x.pc

/-- The micro-op number `k` of a macro-op. -/
noncomputable def FetchedInst.microopAt (x : FetchedInst ι) (si : ι) (k : Nat) : FetchedInst ι :=
  { id := x.id
    fetchSeqNum := x.fetchSeqNum
    pc := isa.microPC si x.pc k
    staticInst := some (isa.fetchMicroop si (BitVec.ofNat 16 k))
    predictedTaken := k = isa.lastMicroop si && x.predictedTaken
    predictedTarget := if k = isa.lastMicroop si then x.predictedTarget else default }

/-- What an instruction becomes. -/
noncomputable def FetchedInst.expansion (x : FetchedInst ι) : List (FetchedInst ι) :=
  match x.fault, x.staticInst with
  | none, some si =>
    if isa.isMacroop si then (List.range (isa.lastMicroop si + 1)).map (x.microopAt isa si)
    else [x]
  | _, _ => [x]

/-- The expansions of all instructions in a row; `none` is a bubble. -/
noncomputable def expandAll (slots : List (Option (FetchedInst ι))) : List (FetchedInst ι) :=
  (slots.filterMap id).flatMap (·.expansion isa)

/-- Give the instructions consecutive numbers. -/
def numbered (n : Nat) : List (FetchedInst ι) → List (FetchedInst ι)
  | [] => []
  | x :: rest => { x with execSeqNum := n } :: numbered (n + 1) rest

end Spec

section Lists

variable {isa : StaticInsts ι} {x : FetchedInst ι} {si : ι} {k n : Nat}

theorem numbered_append (n : Nat) (a b : List (FetchedInst ι)) :
    numbered n (a ++ b) = numbered n a ++ numbered (n + a.length) b := by
  induction a generalizing n with
  | nil => simp [numbered]
  | cons x a ih =>
    rw [List.cons_append, numbered, ih, numbered, List.cons_append, length_cons]
    congr 3
    omega

@[simp] theorem expandAll_none (slots : List (Option (FetchedInst ι))) :
    expandAll isa (none :: slots) = expandAll isa slots := rfl

@[simp] theorem expandAll_some (slots : List (Option (FetchedInst ι))) :
    expandAll isa (some x :: slots) = x.expansion isa ++ expandAll isa slots := rfl

theorem expandAll_append (a b : List (Option (FetchedInst ι))) :
    expandAll isa (a ++ b) = expandAll isa a ++ expandAll isa b := by
  simp [expandAll]

/-- A macro-op that is not a fault. -/
def FetchedInst.IsMacroop (isa : StaticInsts ι) (x : FetchedInst ι) (si : ι) : Prop :=
  x.fault = none ∧ x.staticInst = some si ∧ isa.isMacroop si = true

theorem FetchedInst.IsMacroop.expansion (h : x.IsMacroop isa si) :
    x.expansion isa = (List.range (isa.lastMicroop si + 1)).map (x.microopAt isa si) := by
  obtain ⟨fault, static, macroop⟩ := h
  simp [FetchedInst.expansion, fault, static, macroop]

theorem FetchedInst.IsMacroop.expansion_drop (h : x.IsMacroop isa si)
    (le : k ≤ isa.lastMicroop si) :
    (x.expansion isa).drop k = x.microopAt isa si k :: (x.expansion isa).drop (k + 1) := by
  have bound : k < (x.expansion isa).length := by
    rw [h.expansion, length_map, length_range]
    omega
  rw [drop_eq_getElem_cons bound]
  simp [h.expansion]

theorem StaticInsts.isLastAt_lastMicroop (ends : isa.isLastAt si n = true) :
    isa.isLastAt si (isa.lastMicroop si) = true ∧ isa.lastMicroop si ≤ n :=
  ⟨Nat.sInf_mem (s := {k | isa.isLastAt si k = true}) ⟨n, ends⟩, Nat.sInf_le ends⟩

theorem StaticInsts.Counts.at_hand {pc : PCState} (counts : isa.Counts si pc)
    (le : k ≤ isa.lastMicroop si) :
    (isa.microPC si pc k).upc = BitVec.ofNat 16 k
      ∧ (isa.isLastAt si k = true ↔ k = isa.lastMicroop si) := by
  obtain ⟨n, ends, upc⟩ := counts
  obtain ⟨last, before⟩ := isa.isLastAt_lastMicroop ends
  refine ⟨upc k (Nat.le_trans le before), ?_, ?_⟩
  · intro now
    exact Nat.le_antisymm le (Nat.sInf_le now)
  · rintro rfl
    exact last

theorem FetchedInst.microop_eq {pc : PCState} (counts : isa.Counts si x.pc)
    (le : k ≤ isa.lastMicroop si) (at_ : pc = isa.microPC si x.pc k) :
    x.microop isa (isa.fetchMicroop si pc.upc) pc = x.microopAt isa si k := by
  obtain ⟨upc, last⟩ := counts.at_hand le
  subst at_
  rw [upc, FetchedInst.microop, FetchedInst.microopAt]
  change (if isa.isLastAt si k = true then _ else _) = _
  by_cases now : k = isa.lastMicroop si
  · rw [if_pos (last.mpr now)]
    simp [now]
  · rw [if_neg (fun h => now (last.mp h))]
    simp [now]

theorem StaticInsts.counts_of_microops {pc : PCState} (start : pc.upc = 0 ∧ pc.nupc = 1)
    (micro : ∀ upc, isa.isMicroop (isa.fetchMicroop si upc) = true)
    (ends : ∃ n, isa.isLastAt si n = true) : isa.Counts si pc := by
  obtain ⟨n, some_⟩ := ends
  obtain ⟨last, -⟩ := isa.isLastAt_lastMicroop some_
  refine ⟨_, last, ?_⟩
  have both : ∀ k ≤ isa.lastMicroop si, (isa.microPC si pc k).upc = BitVec.ofNat 16 k
      ∧ (isa.microPC si pc k).nupc = BitVec.ofNat 16 (k + 1) := by
    intro k
    induction k with
    | zero => exact fun _ => start
    | succ k ih =>
      intro le
      obtain ⟨upc, nupc⟩ := ih (Nat.le_of_succ_le le)
      have early : isa.isLastAt si k = false := by
        have notMem := Nat.notMem_of_lt_sInf (s := {k | isa.isLastAt si k = true}) le
        simpa using notMem
      rw [StaticInsts.isLastAt, ← upc] at early
      rw [StaticInsts.microPC, StaticInsts.advancePC, micro, if_pos rfl, early]
      constructor
      · exact nupc
      · change (isa.microPC si pc k).nupc + 1 = _
        rw [nupc]
        simp [BitVec.ofNat_add]
  exact fun k le => (both k le).1

end Lists

/-- The slots of the input buffer that are not done with. -/
def DecodeThread.slots (t : DecodeThread ι) : List (Option (FetchedInst ι)) :=
  (t.inputBuffer.contents.flatMap (·.insts)).drop t.inputIndex

/-- `rest` is still to come out of the slots, of which the first may be half done. -/
structure Pending (isa : StaticInsts ι) (t : DecodeThread ι)
    (slots : List (Option (FetchedInst ι))) (rest : List (FetchedInst ι)) : Prop where
  sound : ∀ x, some x ∈ slots → x.Sound isa
  outside : t.inMacroop = false → rest = expandAll isa slots
  inside : t.inMacroop = true → ∃ x si later k, slots = some x :: later ∧ x.IsMacroop isa si
    ∧ k ≤ isa.lastMicroop si ∧ t.microopPC = isa.microPC si x.pc k
    ∧ rest = (x.expansion isa).drop k ++ expandAll isa later

section Turns

variable {cfg : DecodeConfig} {isa : StaticInsts ι} {t u : DecodeThread ι} {x y : Decomposition ι}
  {d : ForwardInstData ι} {slot : Option (FetchedInst ι)}
  {slots later : List (Option (FetchedInst ι))} {rest : List (FetchedInst ι)}

theorem Pending.congr (h : Pending isa t slots rest) (inMacroop : u.inMacroop = t.inMacroop)
    (microopPC : u.microopPC = t.microopPC) : Pending isa u slots rest where
  sound := h.sound
  outside := by rw [inMacroop]; exact h.outside
  inside := by rw [inMacroop, microopPC]; exact h.inside

theorem Pending.whole (h : Pending isa t (slot :: later) rest)
    (plain : ∀ x si, slot = some x → ¬x.IsMacroop isa si) : rest = expandAll isa (slot :: later) := by
  cases inside : t.inMacroop with
  | false => exact h.outside inside
  | true =>
    obtain ⟨x, si, l, k, eq, macroop, -⟩ := h.inside inside
    exact absurd macroop (plain x si (List.cons.inj eq).1)

theorem Pending.halfway {z : FetchedInst ι} {si : ι} (h : Pending isa t (some z :: later) rest)
    (macroop : z.IsMacroop isa si) : ∃ k ≤ isa.lastMicroop si,
      (t.enterMacroop z).microopPC = isa.microPC si z.pc k
        ∧ rest = (z.expansion isa).drop k ++ expandAll isa later := by
  cases inside : t.inMacroop with
  | false =>
    refine ⟨0, Nat.zero_le _, ?_, ?_⟩
    · simp [DecodeThread.enterMacroop, inside, StaticInsts.microPC]
    · rw [h.outside inside, expandAll_some, drop_zero]
  | true =>
    obtain ⟨x, si', l, k, eq, again, le, at_, rest⟩ := h.inside inside
    obtain ⟨same, rfl⟩ := List.cons.inj eq
    obtain rfl := Option.some.inj same
    obtain rfl : si = si' := Option.some.inj (macroop.2.1.symm.trans again.2.1)
    refine ⟨k, le, ?_, rest⟩
    simpa [DecodeThread.enterMacroop, inside] using at_

theorem Pending.stepped (h : Pending isa t (slot :: later) rest) (outside : u.inMacroop = false) :
    Pending isa u later (expandAll isa later) where
  sound := fun x mem => h.sound x (List.mem_cons_of_mem _ mem)
  outside := fun _ => rfl
  inside := by simp [outside]

/-- What a turn does with the slot in front of it: it either passes a bubble, or takes
the front of the queue out of the slot, with or without stepping the input. -/
inductive Turned (isa : StaticInsts ι) (slot : Option (FetchedInst ι))
    (later : List (Option (FetchedInst ι))) (rest : List (FetchedInst ι)) (x y : Decomposition ι) :
    Prop where
  | bubble (empty : slot = none) (index : y.inputIndex = x.inputIndex + 1)
      (outside : y.inMacroop = false) (output : y.output = x.output)
      (execSeqNum : y.execSeqNum = x.execSeqNum) (pending : Pending isa y.toDecodeThread later rest)
  | last (z next : FetchedInst ι) (behind : List (FetchedInst ι)) (full : slot = some z)
      (queue : rest = next :: behind)
      (static : z.staticInst.isSome = true → next.staticInst.isSome = true)
      (index : y.inputIndex = x.inputIndex + 1) (outside : y.inMacroop = false)
      (output : y.output = x.output ++ [{ next with execSeqNum := x.execSeqNum }])
      (execSeqNum : y.execSeqNum = x.execSeqNum + 1)
      (pending : Pending isa y.toDecodeThread later behind)
  | more (z next : FetchedInst ι) (behind : List (FetchedInst ι)) (full : slot = some z)
      (queue : rest = next :: behind)
      (static : z.staticInst.isSome = true → next.staticInst.isSome = true)
      (index : y.inputIndex = x.inputIndex)
      (output : y.output = x.output ++ [{ next with execSeqNum := x.execSeqNum }])
      (execSeqNum : y.execSeqNum = x.execSeqNum + 1)
      (pending : Pending isa y.toDecodeThread (slot :: later) behind)

/-- What a turn leaves alone. -/
structure Beside (x y : Decomposition ι) : Prop where
  inputBuffer : y.inputBuffer = x.inputBuffer
  instsIn : y.instsIn = x.instsIn

theorem Pending.decompose {z : FetchedInst ι} {si : ι}
    (h : Pending isa x.toDecodeThread (some z :: later) rest) (macroop : z.IsMacroop isa si) :
    Turned isa (some z) later rest x (x.decompose isa z si) ∧ Beside x (x.decompose isa z si) := by
  obtain ⟨k, le, at_, queue⟩ := h.halfway macroop
  have counts := (h.sound z (by simp)).counts si macroop.2.1 macroop.2.2
  obtain ⟨upc, last⟩ := counts.at_hand le
  rw [macroop.expansion_drop le, List.cons_append] at queue
  have buffer : (x.enterMacroop z).inputBuffer = x.inputBuffer := by
    unfold DecodeThread.enterMacroop
    split <;> rfl
  have index : (x.enterMacroop z).inputIndex = x.inputIndex := by
    unfold DecodeThread.enterMacroop
    split <;> rfl
  have number : (x.enterMacroop z).execSeqNum = x.execSeqNum := by
    unfold DecodeThread.enterMacroop
    split <;> rfl
  have entered : (x.enterMacroop z).inMacroop = true := by grind [DecodeThread.enterMacroop]
  have micro := FetchedInst.microop_eq counts le at_
  rw [at_, upc] at micro
  have form : x.decompose isa z si
      = (let y : Decomposition ι := { x.onThread (·.enterMacroop z) with
            microopPC := isa.microPC si z.pc (k + 1) }
          if isa.isLastAt si k = true then y.onThread (·.stepInput) else y).emit
            (z.microopAt isa si k) := by
    unfold Decomposition.decompose
    simp only [Decomposition.onThread, at_, StaticInsts.microPC, StaticInsts.isLastAt, upc]
    rw [micro]
  rw [form]
  by_cases now : k = isa.lastMicroop si
  · rw [if_pos (last.mpr now)]
    refine ⟨.last z _ _ rfl queue (fun _ => rfl) ?_ rfl ?_ ?_ ?_, buffer, rfl⟩
    · exact congrArg (· + 1) index
    · change x.output ++ [{ z.microopAt isa si k with
        execSeqNum := (x.enterMacroop z).execSeqNum }] = _
      rw [number]
    · exact congrArg (· + 1) number
    · have all : (z.expansion isa).drop (k + 1) = [] := by
        rw [macroop.expansion, now]
        exact drop_eq_nil_of_le (by simp)
      rw [all, nil_append]
      exact (h.stepped rfl).congr rfl rfl
  · rw [if_neg fun h => now (last.mp h)]
    refine ⟨.more z _ _ rfl queue (fun _ => rfl) index ?_ ?_ ?_, buffer, rfl⟩
    · change x.output ++ [{ z.microopAt isa si k with
        execSeqNum := (x.enterMacroop z).execSeqNum }] = _
      rw [number]
    · exact congrArg (· + 1) number
    · refine ⟨h.sound, fun outside => ?_, fun _ => ?_⟩
      · exact absurd (entered.symm.trans outside) (by simp)
      · exact ⟨z, si, later, k + 1, rfl, macroop, by omega, rfl, rfl⟩

theorem Pending.body (h : Pending isa x.toDecodeThread (slot :: later) rest) :
    ∃ y, x.body isa slot = some y ∧ Turned isa slot later rest x y ∧ Beside x y := by
  cases slot with
  | none =>
    refine ⟨_, rfl, .bubble rfl rfl rfl rfl rfl ?_, rfl, rfl⟩
    have queue := h.whole (by simp)
    rw [queue]
    exact h.stepped rfl
  | some z =>
    have sound := h.sound z (by simp)
    have plainly : (∀ si, ¬z.IsMacroop isa si) → z.expansion isa = [z] →
        Turned isa (some z) later rest x ((x.onThread (·.stepInput)).emit z) := by
      intro plain single
      have queue := h.whole (by rintro _ si ⟨⟩; exact plain si)
      rw [expandAll_some, single] at queue
      exact .last z z _ rfl queue id rfl rfl rfl rfl ((h.stepped rfl).congr rfl rfl)
    cases fault : z.fault with
    | some =>
      have faulty : z.isFault = true := by simp [FetchedInst.isFault, fault]
      refine ⟨(x.onThread (·.stepInput)).emit z, ?_, ?_, rfl, rfl⟩
      · rw [Decomposition.body, if_pos faulty]
      · refine plainly (fun si macroop => ?_) (by simp [FetchedInst.expansion, fault])
        rw [macroop.1] at fault
        cases fault
    | none =>
      have fine : z.isFault = false := by simp [FetchedInst.isFault, fault]
      obtain ⟨si, static⟩ := Option.isSome_iff_exists.mp (sound.staticInst fine)
      have turn : x.body isa (some z) = some (if isa.isMacroop si = true then
          x.decompose isa z si else (x.onThread (·.stepInput)).emit z) := by
        rw [Decomposition.body, if_neg (by simp [fine]), static]
        rfl
      by_cases macroop : isa.isMacroop si = true
      · rw [if_pos macroop] at turn
        exact ⟨_, turn, h.decompose ⟨fault, static, macroop⟩⟩
      · rw [if_neg macroop] at turn
        refine ⟨_, turn, ?_, rfl, rfl⟩
        refine plainly ?_ (by simp [FetchedInst.expansion, fault, static, macroop])
        rintro si' ⟨-, again, is⟩
        obtain rfl : si = si' := Option.some.inj (static.symm.trans again)
        exact macroop is

end Turns

/-- The next instruction that the thread has in front of it in a cycle. -/
def DecodeThread.nextInst (cfg : DecodeConfig) (t : DecodeThread ι) : Option (FetchedInst ι) :=
  let inputs :=
    if cfg.processMoreThanOneInput then t.inputBuffer.contents else t.inputBuffer.contents.take 1
  ((inputs.flatMap (·.insts)).drop t.inputIndex).findSome? id

/-- Between two turns the index is inside the input in front. -/
def DecodeThread.Within (t : DecodeThread ι) : Prop :=
  match t.inputBuffer.contents with
  | [] => t.inputIndex = 0
  | d :: _ => t.inputIndex < d.insts.length

/-- The packing loop has taken `m` instructions from a thread that started as `t`. -/
structure Packed (cfg : DecodeConfig) (isa : StaticInsts ι) (t : DecodeThread ι)
    (rest : List (FetchedInst ι)) (m : Nat) (x : Decomposition ι) : Prop where
  le : m ≤ rest.length
  pending : Pending isa x.toDecodeThread x.slots (rest.drop m)
  output : x.output = numbered t.execSeqNum (rest.take m)
  execSeqNum : x.execSeqNum = t.execSeqNum + m
  popped : InputBuffer.Popped t.inputBuffer x.inputBuffer
  filled : ∀ d ∈ x.inputBuffer.contents, d.insts ≠ []
  within : x.Within
  input : x.instsIn = none ∨ ∃ d, x.instsIn = some d ∧ x.inputBuffer.contents.head? = some d
  consumed : x.instsIn = none → x.inputBuffer.contents.length < t.inputBuffer.contents.length
  ahead : m = 0 → x.instsIn ≠ none → x.nextInst cfg = t.nextInst cfg
  first : ∀ out, x.output.head? = some out →
    ∃ z, t.nextInst cfg = some z ∧ (z.staticInst.isSome = true → out.staticInst.isSome = true)

section Loop

variable {cfg : DecodeConfig} {isa : StaticInsts ι} {t : DecodeThread ι} {x y : Decomposition ι}
  {d : ForwardInstData ι} {inputs : List (ForwardInstData ι)} {rest : List (FetchedInst ι)}
  {m : Nat}

theorem drop_slot {α : Type} {l : List (Option α)} {k : Nat} (lt : k < l.length)
    (more : List (Option α)) : (l ++ more).drop k = l[k]?.join :: (l ++ more).drop (k + 1) := by
  rw [drop_eq_getElem_cons (by rw [length_append]; omega), getElem_append_left lt,
    List.getElem?_eq_getElem lt]
  rfl

theorem DecodeThread.slots_eq (contents : t.inputBuffer.contents = d :: inputs)
    (lt : t.inputIndex < d.insts.length) :
    t.slots = d.insts[t.inputIndex]?.join
      :: ((d :: inputs).flatMap (·.insts)).drop (t.inputIndex + 1) := by
  rw [DecodeThread.slots, contents, flatMap_cons]
  exact drop_slot lt _

variable (cfg) in
theorem DecodeThread.nextInst_eq (contents : t.inputBuffer.contents = d :: inputs)
    (lt : t.inputIndex < d.insts.length) :
    t.nextInst cfg = match d.insts[t.inputIndex]?.join with
      | some z => some z
      | none => ({ t with inputIndex := t.inputIndex + 1 } : DecodeThread ι).nextInst cfg := by
  have general : ∀ more : List (Option (FetchedInst ι)),
      ((d.insts ++ more).drop t.inputIndex).findSome? id = match d.insts[t.inputIndex]?.join with
        | some z => some z
        | none => ((d.insts ++ more).drop (t.inputIndex + 1)).findSome? id := by
    intro more
    rw [drop_slot lt, List.findSome?_cons]
    cases d.insts[t.inputIndex]?.join <;> rfl
  simp only [DecodeThread.nextInst, contents]
  cases cfg.processMoreThanOneInput with
  | true | false => exact general _

variable (cfg) in
theorem DecodeThread.slots_popInput (contents : t.inputBuffer.contents = d :: inputs)
    (done : t.inputIndex = d.insts.length) :
    t.popInput.inputBuffer.contents = inputs ∧ t.popInput.slots = t.slots
      ∧ (cfg.processMoreThanOneInput = true → t.popInput.nextInst cfg = t.nextInst cfg) := by
  have filled : t.inputBuffer.empty = false := by
    cases empty : t.inputBuffer.empty with
    | false => rfl
    | true =>
      rw [(InputBuffer.empty_iff _).mp empty] at contents
      cases contents
  have left : t.popInput.inputBuffer.contents = inputs := by
    simp [DecodeThread.popInput, filled, InputBuffer.contents_pop, contents]
  refine ⟨left, ?_, ?_⟩
  · rw [DecodeThread.slots, DecodeThread.slots, left, contents, done, flatMap_cons,
      drop_left]
    rfl
  · intro more
    simp only [DecodeThread.nextInst, more, if_true, left, contents, done, flatMap_cons,
      drop_left]
    rfl

/-- What `wrapUp` does between two turns. -/
structure Wrapped (cfg : DecodeConfig) (y z : Decomposition ι) : Prop where
  slots : z.slots = y.slots
  output : z.output = y.output
  execSeqNum : z.execSeqNum = y.execSeqNum
  inMacroop : z.inMacroop = y.inMacroop
  microopPC : z.microopPC = y.microopPC
  popped : InputBuffer.Popped y.inputBuffer z.inputBuffer
  within : z.Within
  input : z.instsIn = none ∨ ∃ d, z.instsIn = some d ∧ z.inputBuffer.contents.head? = some d
  consumed : z.instsIn = none → z.inputBuffer.contents.length < y.inputBuffer.contents.length
  ahead : z.instsIn ≠ none → z.nextInst cfg = y.nextInst cfg

theorem Decomposition.wrapUp_spec (instsIn : y.instsIn = some d)
    (contents : y.inputBuffer.contents = d :: inputs)
    (filled : ∀ d ∈ y.inputBuffer.contents, d.insts ≠ []) (le : y.inputIndex ≤ d.insts.length)
    (stepped : y.inputIndex = d.insts.length → y.inMacroop = false) :
    ∃ z, y.wrapUp cfg d = some z ∧ Wrapped cfg y z := by
  unfold Decomposition.wrapUp
  by_cases done : y.inputIndex = d.insts.length
  · obtain ⟨left, slots, next⟩ := DecodeThread.slots_popInput cfg contents done
    have outside := stepped done
    refine ⟨_, by rw [if_pos done, if_neg (by simp [outside])], ?_⟩
    have shorter : y.popInput.inputBuffer.contents.length < y.inputBuffer.contents.length := by
      rw [left, contents]
      exact Nat.lt_succ_self _
    have popped : InputBuffer.Popped y.inputBuffer y.popInput.inputBuffer := by
      simp only [DecodeThread.popInput]
      split
      · exact .refl
      · exact .pop .refl
    refine ⟨slots, rfl, rfl, outside.symm, rfl, popped, ?_, ?_, fun _ => shorter, ?_⟩
    · change match y.popInput.inputBuffer.contents with
        | [] => _
        | e :: _ => _
      rw [left]
      cases inputs with
      | nil => rfl
      | cons e inputs => exact length_pos_of_ne_nil (filled e (by simp [contents]))
    · cases more : cfg.processMoreThanOneInput with
      | false => exact Or.inl rfl
      | true =>
        cases got : y.popInput.getInput with
        | none => exact Or.inl got
        | some e =>
          refine Or.inr ⟨e, got, ?_⟩
          have front := (Option.filter_eq_some_iff.mp got).1
          rwa [InputBuffer.front_eq] at front
    · aesop
  · refine ⟨y, if_neg done, rfl, rfl, rfl, rfl, rfl, .refl, ?_, ?_, ?_, fun _ => rfl⟩
    · change match y.inputBuffer.contents with
        | [] => _
        | e :: _ => _
      rw [contents]
      exact Nat.lt_of_le_of_ne le done
    · exact Or.inr ⟨d, instsIn, by rw [contents]; rfl⟩
    · simp [instsIn]

theorem DecodeThread.nextInst_congr {u : DecodeThread ι}
    (contents : u.inputBuffer.contents = t.inputBuffer.contents)
    (index : u.inputIndex = t.inputIndex) : u.nextInst cfg = t.nextInst cfg := by
  simp [DecodeThread.nextInst, contents, index]

theorem numbered_length (n : Nat) (l : List (FetchedInst ι)) : (numbered n l).length = l.length := by
  induction l generalizing n with
  | nil => rfl
  | cons x l ih => rw [numbered, length_cons, ih, length_cons]

theorem Packed.output_length (h : Packed cfg isa t rest m x) : x.output.length = m := by
  rw [h.output, numbered_length, length_take]
  exact Nat.min_eq_left h.le

theorem Packed.remaining {z : Decomposition ι} (h : Packed cfg isa t rest m x)
    (beside : Beside x y) (wrapped : Wrapped cfg y z) :
    InputBuffer.Popped t.inputBuffer z.inputBuffer
      ∧ (∀ d ∈ z.inputBuffer.contents, d.insts ≠ [])
      ∧ (z.instsIn = none → z.inputBuffer.contents.length < t.inputBuffer.contents.length) := by
  have popped := wrapped.popped
  have consumed := wrapped.consumed
  rw [beside.inputBuffer] at popped consumed
  refine ⟨h.popped.trans popped, fun d mem => h.filled d (popped.contents.subset mem), fun off => ?_⟩
  exact Nat.lt_of_lt_of_le (consumed off) h.popped.contents.length_le

theorem Packed.passed {z : Decomposition ι} (h : Packed cfg isa t rest m x)
    (on : x.instsIn ≠ none) (beside : Beside x y) (output : y.output = x.output)
    (execSeqNum : y.execSeqNum = x.execSeqNum) (next : y.nextInst cfg = x.nextInst cfg)
    (pending : Pending isa y.toDecodeThread y.slots (rest.drop m)) (wrapped : Wrapped cfg y z) :
    Packed cfg isa t rest m z where
  le := h.le
  pending := wrapped.slots ▸ pending.congr wrapped.inMacroop wrapped.microopPC
  output := wrapped.output.trans (output.trans h.output)
  execSeqNum := wrapped.execSeqNum.trans (execSeqNum.trans h.execSeqNum)
  popped := (h.remaining beside wrapped).1
  filled := (h.remaining beside wrapped).2.1
  within := wrapped.within
  input := wrapped.input
  consumed := (h.remaining beside wrapped).2.2
  ahead := fun zero some_ => (wrapped.ahead some_).trans (next.trans (h.ahead zero on))
  first := by
    rw [wrapped.output, output]
    exact h.first

theorem Packed.took {z : Decomposition ι} {src next : FetchedInst ι}
    {behind : List (FetchedInst ι)} (h : Packed cfg isa t rest m x) (on : x.instsIn ≠ none)
    (source : x.nextInst cfg = some src)
    (static : src.staticInst.isSome = true → next.staticInst.isSome = true)
    (queue : rest.drop m = next :: behind) (beside : Beside x y)
    (output : y.output = x.output ++ [{ next with execSeqNum := x.execSeqNum }])
    (execSeqNum : y.execSeqNum = x.execSeqNum + 1)
    (pending : Pending isa y.toDecodeThread y.slots behind) (wrapped : Wrapped cfg y z) :
    Packed cfg isa t rest (m + 1) z := by
  have lt : m < rest.length := by grind [drop_eq_nil_of_le]
  have split := queue
  rw [drop_eq_getElem_cons lt] at split
  obtain ⟨here, behind_⟩ := List.cons.inj split
  exact {
    le := lt
    pending := by
      rw [behind_, wrapped.slots]
      exact pending.congr wrapped.inMacroop wrapped.microopPC
    output := by
      rw [wrapped.output, output, h.output, take_succ_eq_append_getElem lt, here,
        numbered_append, length_take, Nat.min_eq_left h.le, h.execSeqNum]
      rfl
    execSeqNum := by rw [wrapped.execSeqNum, execSeqNum, h.execSeqNum, Nat.add_assoc]
    popped := (h.remaining beside wrapped).1
    filled := (h.remaining beside wrapped).2.1
    within := wrapped.within
    input := wrapped.input
    consumed := (h.remaining beside wrapped).2.2
    ahead := fun zero => absurd zero (Nat.succ_ne_zero m)
    first := by
      rw [wrapped.output, output]
      intro out head
      cases before : x.output with
      | nil =>
        have zero : m = 0 := by rw [← h.output_length, before]; rfl
        rw [before, nil_append] at head
        obtain rfl := Option.some.inj head
        exact ⟨src, (h.ahead zero on).symm.trans source, static⟩
      | cons =>
        rw [before, List.cons_append, List.head?_cons] at head
        refine h.first out ?_
        rw [before, List.head?_cons]
        exact head }

/-- The turns that are left, at most. -/
def Decomposition.turns (cfg : DecodeConfig) (x : Decomposition ι) : Nat :=
  (cfg.outputWidth - x.output.length) + x.slots.length

theorem Packed.turn (h : Packed cfg isa t rest m x) (instsIn : x.instsIn = some d)
    (goes : x.continues cfg d = true) :
    ∃ z k, (x.body isa d.insts[x.inputIndex]?.join).bind (·.wrapUp cfg d) = some z
      ∧ Packed cfg isa t rest k z ∧ z.turns cfg < x.turns cfg := by
  simp only [Decomposition.continues, Bool.and_eq_true, decide_eq_true_eq] at goes
  obtain ⟨lt, room⟩ := goes
  obtain ⟨inputs, contents⟩ : ∃ inputs, x.inputBuffer.contents = d :: inputs := by
    rcases h.input with none | ⟨e, same, head⟩
    · rw [instsIn] at none
      cases none
    · obtain rfl : d = e := Option.some.inj (instsIn.symm.trans same)
      exact List.head?_eq_some_iff.mp head
  have slots := DecodeThread.slots_eq (t := x.toDecodeThread) contents lt
  have pending := h.pending
  rw [slots] at pending
  obtain ⟨y, turn, turned, beside⟩ := pending.body
  have contentsY : y.inputBuffer.contents = d :: inputs := by rw [beside.inputBuffer, contents]
  have wrap : y.inputIndex ≤ d.insts.length → (y.inputIndex = d.insts.length → y.inMacroop = false) →
      ∃ z, y.wrapUp cfg d = some z ∧ Wrapped cfg y z :=
    Decomposition.wrapUp_spec (beside.instsIn.trans instsIn) contentsY
      (by rw [beside.inputBuffer]; exact h.filled)
  have slotsY : y.slots = ((d :: inputs).flatMap (·.insts)).drop y.inputIndex := by
    rw [DecodeThread.slots, contentsY]
  have on : x.instsIn ≠ none := by simp [instsIn]
  have source := DecodeThread.nextInst_eq cfg contents lt
  have fewer : x.slots.length = (((d :: inputs).flatMap (·.insts)).drop (x.inputIndex + 1)).length
      + 1 := by rw [slots, length_cons]
  rw [turn]
  cases turned with
  | bubble empty index outside output execSeqNum behind =>
    obtain ⟨z, wrapped, w⟩ := wrap (by omega) fun _ => outside
    rw [← index, ← slotsY] at behind fewer
    refine ⟨z, m, wrapped, h.passed on beside output execSeqNum ?_ behind w, ?_⟩
    · grind [DecodeThread.nextInst_congr]
    · grind [Decomposition.turns, w.output, w.slots]
  | last src next behind full queue static index outside output execSeqNum pending =>
    obtain ⟨z, wrapped, w⟩ := wrap (by omega) fun _ => outside
    rw [← index, ← slotsY] at pending fewer
    rw [full] at source
    refine ⟨z, m + 1, wrapped,
      h.took on source static queue beside output execSeqNum pending w, ?_⟩
    rw [Decomposition.turns, Decomposition.turns, w.output, w.slots, output, length_append]
    omega
  | more src next behind full queue static index output execSeqNum pending =>
    obtain ⟨z, wrapped, w⟩ := wrap (by omega) fun done => absurd done (by omega)
    have same : y.slots = x.slots := by rw [slotsY, index, DecodeThread.slots, contents]
    rw [← slots, ← same] at pending
    rw [full] at source
    refine ⟨z, m + 1, wrapped,
      h.took on source static queue beside output execSeqNum pending w, ?_⟩
    rw [Decomposition.turns, Decomposition.turns, w.output, w.slots, same, output,
      length_append, length_singleton]
    omega

theorem Packed.loop {fuel : Nat} (h : Packed cfg isa t rest m x) (enough : x.turns cfg < fuel) :
    ∃ y k, Decomposition.loop cfg isa fuel x = some y ∧ Packed cfg isa t rest k y
      ∧ ∀ d, y.instsIn = some d → y.continues cfg d = false := by
  induction fuel generalizing x m with
  | zero => exact absurd enough (Nat.not_lt_zero _)
  | succ fuel ih =>
    cases instsIn : x.instsIn with
    | none => grind [Decomposition.loop]
    | some d =>
      by_cases goes : x.continues cfg d = true
      · obtain ⟨z, k, turned, packed, fewer⟩ := h.turn instsIn goes
        obtain ⟨y, k', looped, rest⟩ := ih packed (by omega)
        refine ⟨y, k', ?_, rest⟩
        simp [Decomposition.loop, instsIn, goes, turned, looped]
      · grind [Decomposition.loop]

/-- A thread whose input is in order. -/
structure DecodeThread.Ready (isa : StaticInsts ι) (t : DecodeThread ι)
    (rest : List (FetchedInst ι)) : Prop where
  pending : Pending isa t t.slots rest
  filled : ∀ d ∈ t.inputBuffer.contents, d.isBubble = false
  within : t.Within

theorem ForwardInstData.ne_nil_of_filled (filled : d.isBubble = false) : d.insts ≠ [] := by
  intro nil
  simp [ForwardInstData.isBubble, nil] at filled

theorem DecodeThread.Ready.getInput (h : t.Ready isa rest) :
    t.getInput = t.inputBuffer.contents.head? := by
  rw [DecodeThread.getInput, InputBuffer.front_eq]
  cases contents : t.inputBuffer.contents with
  | nil => rfl
  | cons d inputs => simp [h.filled d (by simp [contents])]

variable (cfg) in
theorem DecodeThread.Ready.pack (h : t.Ready isa rest) (scheduled : t.getInput.isSome = true) :
    ∃ x m, Decode.pack cfg isa t = some x ∧ Packed cfg isa t rest m x
      ∧ (m ≠ 0 ∨ x.inputBuffer.contents.length < t.inputBuffer.contents.length) := by
  obtain ⟨d, got⟩ := Option.isSome_iff_exists.mp scheduled
  have start : Packed cfg isa t rest 0 { toDecodeThread := t, instsIn := t.getInput } := {
    le := Nat.zero_le _
    pending := h.pending
    output := rfl
    execSeqNum := rfl
    popped := .refl
    filled := fun d mem => ForwardInstData.ne_nil_of_filled (h.filled d mem)
    within := h.within
    input := Or.inr ⟨d, got, h.getInput ▸ got⟩
    consumed := fun none => by
      change t.getInput = _ at none
      rw [got] at none
      cases none
    ahead := fun _ _ => rfl
    first := by simp }
  have enough : ({ toDecodeThread := t, instsIn := t.getInput } : Decomposition ι).turns cfg
      < Decomposition.fuel cfg t.inputBuffer.contents := by
    have slots : t.slots.length ≤ (t.inputBuffer.contents.map fun d => d.insts.length).sum := by
      rw [DecodeThread.slots, length_drop, length_flatMap]
      exact Nat.sub_le _ _
    change cfg.outputWidth - 0 + t.slots.length < _
    simp only [Decomposition.fuel]
    omega
  obtain ⟨x, m, looped, packed, exits⟩ := start.loop enough
  refine ⟨x, m, looped, packed, ?_⟩
  rcases packed.input with off | ⟨e, on, head⟩
  · exact Or.inr (packed.consumed off)
  · left
    intro zero
    obtain ⟨inputs, contents⟩ := List.head?_eq_some_iff.mp head
    have within := packed.within
    rw [DecodeThread.Within, contents] at within
    have stops := exits e on
    have none : x.output.length = 0 := packed.output_length.trans zero
    have room := cfg.outputWidth_pos
    simp only [Decomposition.continues, none, Bool.and_eq_false_iff, decide_eq_false_iff_not]
      at stops
    omega

theorem Packed.ready (h : Packed cfg isa t rest m x) (ready : t.Ready isa rest) :
    x.Ready isa (rest.drop m) where
  pending := h.pending
  filled := fun d mem => ready.filled d (h.popped.contents.subset mem)
  within := h.within

end Loop

end Gem5.Minor
