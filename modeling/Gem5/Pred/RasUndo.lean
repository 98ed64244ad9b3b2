import Gem5.Pred.BPredUnit
import Mathlib.Tactic.Basic

/-!
# Undoing predictions on the return address stack

Seen from a prediction, the stack stands at a height that each later record changes by at most
one. A pop remembers what it took; a push forgets what it overwrites. So undoing the records
brings back the top index and the entries that no push has reached around the ring.
-/

namespace Gem5.Pred

open Function Bool

variable {PC : Type} {N : Nat} [NeZero N]

namespace PredictorHistory

/-- By how much the stack stands higher after a prediction than before. -/
def rise (e : PredictorHistory PC N) : Int :=
  if e.usedRAS then -1 else if e.wasCall && e.pushedRAS then 1 else 0

def height : List (PredictorHistory PC N) → Int
  | [] => 0
  | e :: hist => e.rise + height hist

def undoStack (e : PredictorHistory PC N) (stack : Fin N → PC) : Fin N → PC :=
  if e.usedRAS then Function.update stack e.RASIndex e.RASTarget else stack

omit [NeZero N] in
theorem undo_addrStack (e : PredictorHistory PC N) (ras : ReturnAddrStack PC N) :
    (e.undo ras).addrStack = e.undoStack ras.addrStack := by
  rw [undo, undoStack]
  split
  · rfl
  · split
    · rfl
    · rfl

/-- A record that was made at a height, on a stack, tells how to get back there. Returns that
were predicted not taken, and only they, have nothing recorded. -/
structure Kept (unrecorded : InstSeqNum → Prop) (top before : Int) (stack : Fin N → PC)
    (e : PredictorHistory PC N) : Prop where
  low : before ≤ top
  used : e.usedRAS = true → e.wasReturn = true ∧ e.RASIndex = Ring.slot N before
  notCall : e.wasReturn = true → e.wasCall = false
  recorded : e.wasReturn = true → e.usedRAS = false → ¬ unrecorded e.seqNum →
    e.RASIndex = Ring.slot N before ∧
      (top - N < before → stack (Ring.slot N before) = e.RASTarget)

/-- Undoing the records leads back to the stack `old`, but for what a push up to `top` has
overwritten. -/
def Undoable (unrecorded : InstSeqNum → Prop) (top : Int) (old : ReturnAddrStack PC N)
    (stack : Fin N → PC) : List (PredictorHistory PC N) → Prop
  | [] => ∀ x : Int, top - N < x → x ≤ old.tos.val →
      stack (Ring.slot N x) = old.addrStack (Ring.slot N x)
  | e :: hist =>
    Kept unrecorded top (old.tos.val + height hist) (e.undoStack stack) e ∧
      Undoable unrecorded top old (e.undoStack stack) hist

variable {unrecorded : InstSeqNum → Prop} {top : Int} {old : ReturnAddrStack PC N}

theorem Kept.congr {before : Int} {stack stack' : Fin N → PC} {e : PredictorHistory PC N}
    (h : Kept unrecorded top before stack e)
    (agree : top - N < before → stack' (Ring.slot N before) = stack (Ring.slot N before)) :
    Kept unrecorded top before stack' e := by
  refine ⟨h.low, h.used, h.notCall, fun ret notUsed rec => ?_⟩
  obtain ⟨index, target⟩ := h.recorded ret notUsed rec
  exact ⟨index, fun near => (agree near).trans (target near)⟩

/-- Two stacks that agree below the height after a record agree, once it is undone, below the
height before it. -/
theorem undoStack_agree {before : Int} {stack stack' : Fin N → PC} {e : PredictorHistory PC N}
    (low : before ≤ top)
    (used : e.usedRAS = true → e.wasReturn = true ∧ e.RASIndex = Ring.slot N before) (agree : ∀ x,
    top - N < x → x ≤ before + e.rise → stack' (Ring.slot N x) = stack (Ring.slot N x)) {x : Int}
    (near : top - N < x) (below : x ≤ before) :
    e.undoStack stack' (Ring.slot N x) = e.undoStack stack (Ring.slot N x) := by
  rw [rise] at agree
  rw [undoStack, undoStack]
  by_cases hused : e.usedRAS = true
  · grind
  · grind

theorem Undoable.congr {hist : List (PredictorHistory PC N)} {stack stack' : Fin N → PC}
    (h : Undoable unrecorded top old stack hist) (agree : ∀ x, top - N < x → x ≤ old.tos.val +
    height hist → stack' (Ring.slot N x) = stack (Ring.slot N x)) :
    Undoable unrecorded top old stack' hist := by
  induction hist generalizing stack stack' with
  | nil =>
    intro x near below
    rw [agree x near (by rw [height]; omega)]
    exact h x near below
  | cons e hist ih =>
    obtain ⟨kept, rest⟩ := h
    have undone : ∀ x, top - N < x → x ≤ old.tos.val + height hist →
        e.undoStack stack' (Ring.slot N x) = e.undoStack stack (Ring.slot N x) := by
      intro x near below
      refine undoStack_agree kept.low kept.used ?_ near below
      intro y near below
      exact agree y near (by rw [height]; omega)
    exact ⟨kept.congr fun near => undone _ near (by omega), ih rest undone⟩

/-- The stack as it stands after the records, and how to undo them. -/
structure Recovers (unrecorded : InstSeqNum → Prop) (top : Int) (old ras : ReturnAddrStack PC N)
    (hist : List (PredictorHistory PC N)) : Prop where
  tos : ras.tos = Ring.slot N (old.tos.val + height hist)
  low : old.tos.val + height hist ≤ top
  undoable : Undoable unrecorded top old ras.addrStack hist

theorem recovers_start (low : old.tos.val ≤ top) : Recovers unrecorded top old old [] := by
  refine ⟨?_, ?_, fun x _ _ => rfl⟩
  · rw [height, Int.add_zero, Ring.slot_coe]
  · rw [height]
    omega

theorem Recovers.undo {ras : ReturnAddrStack PC N} {e : PredictorHistory PC N}
    {hist : List (PredictorHistory PC N)} (h : Recovers unrecorded top old ras (e :: hist)) :
    Recovers unrecorded top old (e.undo ras) hist := by
  obtain ⟨tos, -, kept, rest⟩ := h
  refine ⟨?_, kept.low, by rw [undo_addrStack]; exact rest⟩
  rw [height, rise] at tos
  rw [PredictorHistory.undo]
  split
  · rename_i hused
    exact (kept.used hused).2
  · rename_i hused
    rw [if_neg hused] at tos
    split
    · rename_i hcall
      rw [if_pos hcall] at tos
      have back : old.tos.val + height hist = old.tos.val + (1 + height hist) - 1 := by omega
      rw [back, Ring.slot_pred, ← tos]
      rfl
    · grind

theorem Recovers.still {ras : ReturnAddrStack PC N} {e : PredictorHistory PC N}
    {hist : List (PredictorHistory PC N)} (h : Recovers unrecorded top old ras hist)
    (notUsed : e.usedRAS = false) (notPushed : (e.wasCall && e.pushedRAS) = false)
    (notCall : e.wasReturn = true → e.wasCall = false) (recorded : e.wasReturn = true → ¬ unrecorded
    e.seqNum → e.RASIndex = Ring.slot N (old.tos.val + height hist) ∧ ras.addrStack e.RASIndex =
    e.RASTarget) : Recovers unrecorded top old ras (e :: hist) := by
  have flat : height (e :: hist) = height hist := by
    rw [height, rise, if_neg (by simp [notUsed]), if_neg (by simp [notPushed]), Int.zero_add]
  have same : e.undoStack ras.addrStack = ras.addrStack := by simp [undoStack, notUsed]
  refine ⟨flat ▸ h.tos, flat ▸ h.low, ?_, same.symm ▸ h.undoable⟩
  refine ⟨h.low, fun used => ?_, notCall, fun ret _ rec => ?_⟩
  · simp [notUsed] at used
  · aesop

theorem push_agree {ras : ReturnAddrStack PC N} {hist : List (PredictorHistory PC N)}
    (h : Recovers unrecorded top old ras hist) (below : old.tos.val + height hist < top)
    (pc : PC) (x : Int) (near : top - N < x) (under : x ≤ old.tos.val + height hist) :
    (ras.push pc).addrStack (Ring.slot N x) = ras.addrStack (Ring.slot N x) := by
  have hne : Ring.slot N x ≠ Ring.next ras.tos := by
    rw [h.tos, ← Ring.slot_succ]
    exact Ring.slot_ne (by omega) (by omega) (by omega)
  exact update_of_ne hne _ _

theorem Recovers.push {ras : ReturnAddrStack PC N} {e : PredictorHistory PC N}
    {hist : List (PredictorHistory PC N)} (h : Recovers unrecorded top old ras hist)
    (below : old.tos.val + height hist < top) (pc : PC) (notUsed : e.usedRAS = false)
    (pushed : (e.wasCall && e.pushedRAS) = true) (notReturn : e.wasReturn = false) :
    Recovers unrecorded top old (ras.push pc) (e :: hist) := by
  have up : height (e :: hist) = height hist + 1 := by
    rw [height, rise, if_neg (by simp [notUsed]), if_pos pushed, Int.add_comm]
  have same : e.undoStack (ras.push pc).addrStack = (ras.push pc).addrStack := by
    simp [undoStack, notUsed]
  refine ⟨?_, by rw [up]; omega, ?_, ?_⟩
  · rw [up, ← Int.add_assoc, Ring.slot_succ, ← h.tos]
    rfl
  · refine ⟨h.low, fun used => ?_, fun ret => ?_, fun ret => ?_⟩
    · simp [notUsed] at used
    · simp [notReturn] at ret
    · simp [notReturn] at ret
  · rw [same]
    exact h.undoable.congr (push_agree h below pc)

theorem Recovers.push_pop {ras : ReturnAddrStack PC N} {hist : List (PredictorHistory PC N)}
    (h : Recovers unrecorded top old ras hist) (below : old.tos.val + height hist < top)
    (pc : PC) : Recovers unrecorded top old (ras.push pc).pop hist := by
  refine ⟨?_, h.low, h.undoable.congr (push_agree h below pc)⟩
  have back : ((ras.push pc).pop).tos = Ring.prev (Ring.next ras.tos) := rfl
  rw [back, h.tos, ← Ring.slot_succ, ← Ring.slot_pred, Int.add_sub_cancel]

theorem Recovers.pop {ras : ReturnAddrStack PC N} {e : PredictorHistory PC N}
    {hist : List (PredictorHistory PC N)} (h : Recovers unrecorded top old ras hist)
    (used : e.usedRAS = true) (ret : e.wasReturn = true) (notCall : e.wasCall = false)
    (index : e.RASIndex = Ring.slot N (old.tos.val + height hist))
    (target : top - N < old.tos.val + height hist → ras.addrStack e.RASIndex = e.RASTarget) :
    Recovers unrecorded top old ras.pop (e :: hist) := by
  have down : height (e :: hist) = height hist - 1 := by
    rw [height, rise, if_pos used]
    omega
  have popped : ras.pop.addrStack = ras.addrStack := rfl
  refine ⟨?_, by have := h.low; rw [down]; omega, ?_, ?_⟩
  · rw [down, ← Int.add_sub_assoc, Ring.slot_pred, ← h.tos]
    rfl
  · refine ⟨h.low, fun _ => ⟨ret, index⟩, fun _ => notCall, fun _ notUsed => ?_⟩
    simp [used] at notUsed
  · refine h.undoable.congr fun x near under => ?_
    rw [undoStack, if_pos used, popped]
    by_cases hx : x = old.tos.val + height hist
    · grind
    · grind

theorem Recovers.amend {ras : ReturnAddrStack PC N} {e : PredictorHistory PC N}
    {hist : List (PredictorHistory PC N)} (h : Recovers unrecorded top old ras (e :: hist))
    (predTaken : Bool) (target : Addr) :
    Recovers unrecorded top old ras
      ({ e with predTaken := predTaken, target := target } :: hist) :=
  ⟨h.tos, h.low, ⟨h.undoable.1.low, h.undoable.1.used, h.undoable.1.notCall,
    h.undoable.1.recorded⟩, h.undoable.2⟩

end PredictorHistory

open PredictorHistory

namespace Thread

variable {unrecorded : InstSeqNum → Prop} {top : Int} {old : ReturnAddrStack PC N}
  {hist : List (PredictorHistory PC N)} {hasIPred : Bool}

theorem predictTarget_recovers {ras : ReturnAddrStack PC N} {e : PredictorHistory PC N}
    {inst : StaticInst PC} {ans : Answers PC} {pc : PC} {found : Option PC}
    {ras' : ReturnAddrStack PC N} {e' : PredictorHistory PC N}
    (h : Recovers unrecorded top old ras hist)
    (low : inst.isCall = true → old.tos.val + height hist < top)
    (notUsed : e.usedRAS = false) (notReturn : e.wasReturn = false) (notCall : e.wasCall = false)
    (eq : predictTarget hasIPred ras e inst pc ans = (found, ras', e')) (target : Addr) :
    e'.seqNum = e.seqNum ∧
      Recovers unrecorded top old ras' ({ e' with target := target } :: hist) := by
  rw [predictTarget] at eq
  by_cases call : inst.isCall = true
  · simp only [call] at eq
    have pushed (pc' : PC) (indirect : Bool) : Recovers unrecorded top old (ras.push pc')
        ({ e with pushedRAS := true, wasCall := true, wasIndirect := indirect,
                  target := target } :: hist) :=
      h.push (low call) pc' notUsed rfl notReturn
    split at eq
    · cases eq
      exact ⟨rfl, pushed _ _⟩
    · split at eq
      · cases eq
        refine ⟨rfl, (h.push_pop (low call) pc).still notUsed (by simp) ?_ ?_⟩
        · intro ret
          simp [notReturn] at ret
        · intro ret
          simp [notReturn] at ret
      · cases eq
        exact ⟨rfl, pushed _ _⟩
  · simp only [call] at eq
    have still (indirect : Bool) : Recovers unrecorded top old ras
        ({ e with wasIndirect := indirect, target := target } :: hist) := by
      refine h.still notUsed (by simp [notCall]) (fun _ => notCall) ?_
      intro ret
      simp [notReturn] at ret
    split at eq
    · cases eq
      exact ⟨rfl, still _⟩
    · cases eq
      exact ⟨rfl, still _⟩

theorem predict_recovers {t : Thread PC N} (isa : Isa PC) (hasIPred : Bool) (inst : StaticInst PC)
    (seqNum : InstSeqNum) (pc : PC) (ans : Answers PC) (h : Recovers unrecorded top old t.ras hist)
    (low : inst.isCall = true → inst.isReturn = false → takes inst ans = true → old.tos.val + height
    hist < top) (noted : inst.isReturn = true → takes inst ans = false → unrecorded seqNum) :
    ∃ e, (t.predict isa hasIPred inst seqNum pc ans).2.2.predHist = e :: t.predHist ∧
      e.seqNum = seqNum ∧
      Recovers unrecorded top old (t.predict isa hasIPred inst seqNum pc ans).2.2.ras
        (e :: hist) := by
  rw [predict]
  by_cases takes : takes inst ans = true
  · simp only [takes, if_true]
    by_cases ret : inst.isReturn = true
    · simp only [ret]
      exact ⟨_, rfl, rfl, h.pop rfl rfl rfl h.tos fun _ => rfl⟩
    · simp only [ret, false_eq_true, if_false]
      have low' (call : inst.isCall = true) := low call (by simpa using ret) takes
      split
      · rename_i eq
        obtain ⟨sn, rec⟩ := predictTarget_recovers h low' rfl rfl rfl eq _
        exact ⟨_, rfl, sn, rec⟩
      · rename_i eq
        obtain ⟨sn, rec⟩ := predictTarget_recovers h low' rfl rfl rfl eq _
        exact ⟨_, rfl, sn, rec⟩
  · simp only [takes]
    refine ⟨_, rfl, rfl, h.still rfl rfl (fun _ => rfl) fun ret rec => ?_⟩
    exact absurd (noted ret (by simpa using takes)) rec

omit [NeZero N] in
theorem correct_seqNum (ras : ReturnAddrStack PC N) (e : PredictorHistory PC N)
    (actuallyTaken : Bool) : (correct ras e actuallyTaken).2.seqNum = e.seqNum := by
  rw [correct]
  split
  · split
    · rfl
    · rfl
  · split
    · rfl
    · split
      · rfl
      · rfl

theorem correct_recovers {ras : ReturnAddrStack PC N} {e : PredictorHistory PC N}
    {actuallyTaken : Bool} (h : Recovers unrecorded top old ras (e :: hist))
    (noted : actuallyTaken = true → ¬ unrecorded e.seqNum) :
    Recovers unrecorded top old (correct ras e actuallyTaken).1
      ((correct ras e actuallyTaken).2 :: hist) := by
  have kept := h.undoable.1
  have undone := h.undo
  rw [correct]
  split
  · rename_i taken
    split
    · rename_i ret
      obtain ⟨ret, notUsed⟩ : e.wasReturn = true ∧ e.usedRAS = false := by simpa using ret
      obtain ⟨index, target⟩ := kept.recorded ret notUsed (noted taken)
      have same : e.undo ras = ras := by simp [undo, notUsed, kept.notCall ret]
      rw [same] at undone
      refine undone.pop rfl ret (kept.notCall ret) index fun near => ?_
      rw [index]
      simpa [undoStack, notUsed] using target near
    · exact h
  · split
    · rename_i used
      rw [undo, if_pos used] at undone
      obtain ⟨ret, index⟩ := kept.used used
      have notCall := kept.notCall ret
      refine undone.still rfl ?_ kept.notCall fun _ _ => ⟨index, ?_⟩
      · simp [notCall]
      · exact update_self _ _ _
    · rename_i notUsed
      split
      · rename_i call
        rw [undo, if_neg notUsed, if_pos call] at undone
        refine undone.still (by simpa using notUsed) (by simp) kept.notCall ?_
        intro ret
        simp [kept.notCall ret] at call
      · exact h

omit [NeZero N] in
theorem squashHist_predHist (ras : ReturnAddrStack PC N) (sn : InstSeqNum)
    (hist : List (PredictorHistory PC N)) :
    (squashHist ras sn hist).predHist = hist.dropWhile fun e => sn < e.seqNum := by
  induction hist generalizing ras with
  | nil => rfl
  | cons e hist ih =>
    rw [squashHist, List.dropWhile]
    by_cases young : sn < e.seqNum
    · rw [if_pos young, ih]
      simp [young]
    · rw [if_neg young]
      simp [young]

theorem squashHist_all {ras : ReturnAddrStack PC N} {sn : InstSeqNum}
    (older : List (PredictorHistory PC N)) (h : Recovers unrecorded top old ras hist)
    (young : ∀ e ∈ hist, sn < e.seqNum) :
    ∃ ras', squashHist ras sn (hist ++ older) = squashHist ras' sn older ∧
      Recovers unrecorded top old ras' [] := by
  induction hist generalizing ras with
  | nil => exact ⟨ras, rfl, h⟩
  | cons e hist ih =>
    obtain ⟨ras', eq, rec⟩ := ih h.undo fun e' he => young e' (List.mem_cons_of_mem _ he)
    refine ⟨ras', ?_, rec⟩
    rw [List.cons_append, squashHist, if_pos (young e List.mem_cons_self), eq]

theorem squashHist_some {ras : ReturnAddrStack PC N} {sn : InstSeqNum}
    {later : List (PredictorHistory PC N)} (older : List (PredictorHistory PC N))
    {e : PredictorHistory PC N}
    (h : Recovers unrecorded top old ras (later ++ [e])) (stays : e.seqNum ≤ sn) :
    ∃ ras' later', squashHist ras sn (later ++ e :: older) = ⟨ras', later' ++ e :: older⟩ ∧
      (∀ d ∈ later', d ∈ later) ∧ Recovers unrecorded top old ras' (later' ++ [e]) := by
  induction later generalizing ras with
  | nil => grind [squashHist]
  | cons d later ih =>
    by_cases young : sn < d.seqNum
    · obtain ⟨ras', later', eq, sub, rec⟩ := ih h.undo
      refine ⟨ras', later', ?_, fun x hx => List.mem_cons_of_mem _ (sub x hx), rec⟩
      rw [List.cons_append, squashHist, if_pos young, eq]
    · grind [squashHist]

end Thread

end Gem5.Pred
