import Gem5.Lib.Lists
import Gem5.Pred.RasUndo

/-!
# What a squash recovers of the return address stack

While a prediction has its record, the records from it on tell how to get back to the stack
before it.
-/

namespace Gem5.Pred

open PredictorHistory List

variable {PC : Type} {N : Nat} [NeZero N]

namespace Thread

variable {unrecorded : InstSeqNum → Prop} {top : Int} {old : ReturnAddrStack PC N}
  {hist : List (PredictorHistory PC N)} {isa : Isa PC} {hasIPred : Bool}

def seqNums (t : Thread PC N) : List InstSeqNum := t.predHist.map PredictorHistory.seqNum

/-- The stack height counted from the records of a sequence number on. -/
def heightSince (sn : InstSeqNum) (t : Thread PC N) : Int :=
  height (t.predHist.filter fun e => sn ≤ e.seqNum)

/-- The record of the prediction `sn`, the later and the older ones. -/
structure Since (unrecorded : InstSeqNum → Prop) (top : Int) (old : ReturnAddrStack PC N)
    (sn : InstSeqNum) (t : Thread PC N) (later : List (PredictorHistory PC N))
    (e : PredictorHistory PC N) (older : List (PredictorHistory PC N)) : Prop where
  records : t.predHist = later ++ e :: older
  younger : ∀ d ∈ later, sn < d.seqNum
  own : e.seqNum = sn
  elder : ∀ d ∈ older, d.seqNum < sn
  recovers : Recovers unrecorded top old t.ras (later ++ [e])

/-- While the prediction has its record, the stack before it can be recovered. -/
def Held (unrecorded : InstSeqNum → Prop) (top : Int) (old : ReturnAddrStack PC N)
    (sn : InstSeqNum) (t : Thread PC N) : Prop :=
  sn ∈ t.seqNums → ∃ later e older, Since unrecorded top old sn t later e older

variable {sn : InstSeqNum}

theorem Since.heightSince {t : Thread PC N} {later older : List (PredictorHistory PC N)}
    {e : PredictorHistory PC N} (h : Since unrecorded top old sn t later e older) :
    t.heightSince sn = height (later ++ [e]) := by
  have keep : later.filter (fun d => sn ≤ d.seqNum) = later :=
    List.filter_eq_self.mpr fun d hd => by simpa using Nat.le_of_lt (h.younger d hd)
  have drop : older.filter (fun d => sn ≤ d.seqNum) = [] :=
    List.filter_eq_nil_iff.mpr fun d hd => by simpa using h.elder d hd
  rw [Thread.heightSince, h.records, filter_append, List.filter_cons, keep, drop]
  simp [h.own]

theorem Since.update {t : Thread PC N} {later older : List (PredictorHistory PC N)}
    {e : PredictorHistory PC N} (h : Since unrecorded top old sn t later e older)
    {doneSN : InstSeqNum} (kept : sn ∈ (t.update doneSN).seqNums) :
    ∃ older', Since unrecorded top old sn (t.update doneSN) later e older' := by
  rw [seqNums, Thread.update, h.records] at kept
  by_cases done : sn ≤ doneSN
  · exfalso
    have leave : ∀ d ∈ e :: older, decide (d.seqNum ≤ doneSN) = true := by
      intro d hd
      rcases List.mem_cons.mp hd with rfl | hd
      · simpa [h.own] using done
      · simp only [decide_eq_true_eq]
        exact Nat.le_trans (Nat.le_of_lt (h.elder d hd)) done
    rw [Cuts.rdropWhile_append later _ leave] at kept
    obtain ⟨d, hd, heq⟩ := List.mem_map.mp kept
    have := h.younger d (( rdropWhile_prefix _ _).subset hd)
    exact Nat.ne_of_gt this heq
  · have stays : decide (e.seqNum ≤ doneSN) = false := by simpa [h.own] using done
    refine ⟨older.rdropWhile fun d => d.seqNum ≤ doneSN, ?_, h.younger, h.own, ?_, h.recovers⟩
    · rw [Thread.update, h.records]
      exact Cuts.rdropWhile_append_cons later older stays
    · exact fun d hd => h.elder d (( rdropWhile_prefix _ _).subset hd)

theorem Since.squash {t : Thread PC N} {later older : List (PredictorHistory PC N)}
    {e : PredictorHistory PC N} (h : Since unrecorded top old sn t later e older)
    {squashedSN : InstSeqNum} (kept : sn ∈ (t.squash squashedSN).seqNums) :
    ∃ later', Since unrecorded top old sn (t.squash squashedSN) later' e older := by
  by_cases young : squashedSN < sn
  · exfalso
    have all : ∀ d ∈ later ++ [e], squashedSN < d.seqNum := by
      intro d hd
      rcases List.mem_append.mp hd with hd | hd
      · exact Nat.lt_trans young (h.younger d hd)
      · grind [h.own]
    obtain ⟨ras', eq, -⟩ := squashHist_all older h.recovers all
    rw [seqNums, Thread.squash, h.records, append_cons, eq, squashHist_predHist] at kept
    obtain ⟨d, hd, heq⟩ := List.mem_map.mp kept
    exact Nat.ne_of_lt (h.elder d ((dropWhile_sublist _).subset hd)) heq
  · obtain ⟨ras', later', eq, sub, rec⟩ := squashHist_some older h.recovers
      (Nat.le_trans (Nat.le_of_eq h.own) (Nat.not_lt.mp young))
    refine ⟨later', ?_⟩
    rw [Thread.squash, h.records, eq]
    exact ⟨rfl, fun d hd => h.younger d (sub d hd), h.own, h.elder, rec⟩

theorem Since.squashTo {t t' : Thread PC N} {later older : List (PredictorHistory PC N)}
    {e : PredictorHistory PC N} (h : Since unrecorded top old sn t later e older)
    {squashedSN : InstSeqNum} {corrTarget : Addr} {actuallyTaken : Bool}
    (eq : t.squashTo squashedSN corrTarget actuallyTaken = some t') (kept : sn ∈ t'.seqNums)
    (noted : actuallyTaken = true → ¬ unrecorded squashedSN) :
    ∃ later' e', Since unrecorded top old sn t' later' e' older := by
  rw [Thread.squashTo] at eq
  dsimp only at eq
  split at eq
  · cases eq
    obtain ⟨later', since⟩ := h.squash kept
    exact ⟨later', e, since⟩
  · rename_i f rest front
    split at eq
    · rename_i named
      cases eq
      have before : sn ∈ (t.squash squashedSN).seqNums := by
        rw [seqNums, List.map_cons, correct_seqNum] at kept
        rw [seqNums, front, List.map_cons]
        exact kept
      obtain ⟨later', since⟩ := h.squash before
      have records := since.records
      have recovers := since.recovers
      rw [front] at records
      cases later' with
      | nil =>
        obtain ⟨rfl, rfl⟩ := List.cons.inj records
        refine ⟨[], _, rfl, by simp, (correct_seqNum _ _ _).trans since.own, since.elder, ?_⟩
        exact correct_recovers (recovers.amend _ _) (by rw [named]; exact noted)
      | cons d later' =>
        obtain ⟨rfl, rfl⟩ := List.cons.inj records
        refine ⟨_ :: later', e, rfl, ?_, since.own, since.elder, ?_⟩
        · intro d hd
          rcases List.mem_cons.mp hd with rfl | hd
          · rw [correct_seqNum]
            exact since.younger f List.mem_cons_self
          · exact since.younger d (List.mem_cons_of_mem _ hd)
        · exact correct_recovers (recovers.amend _ _) (by rw [named]; exact noted)
    · cases eq

theorem predict_predHist (t : Thread PC N) (isa : Isa PC) (hasIPred : Bool) (inst : StaticInst PC)
    (seqNum : InstSeqNum) (pc : PC) (ans : Answers PC) :
    ∃ e, (t.predict isa hasIPred inst seqNum pc ans).2.2.predHist = e :: t.predHist ∧
      e.seqNum = seqNum := by
  have start : Recovers (fun _ => True) (t.ras.tos.val + 1) t.ras t.ras [] :=
    recovers_start (by omega)
  obtain ⟨e, hist, own, -⟩ := predict_recovers isa hasIPred inst seqNum pc ans start
    (fun _ _ _ => by rw [height]; omega) fun _ _ => trivial
  exact ⟨e, hist, own⟩

omit [NeZero N] in
theorem squashTo_seqNums {t t' : Thread PC N} {squashedSN : InstSeqNum} {corrTarget : Addr}
    {actuallyTaken : Bool} (eq : t.squashTo squashedSN corrTarget actuallyTaken = some t') :
    t'.seqNums = (t.squash squashedSN).seqNums := by
  rw [squashTo] at eq
  dsimp only at eq
  split at eq
  · cases eq
    rfl
  · rename_i front
    split at eq
    · cases eq
      rw [seqNums, List.map_cons, correct_seqNum, seqNums, front]
      rfl
    · cases eq

theorem mem_seqNums_step {t t' : Thread PC N} {c : Call PC}
    (stepped : t.step isa hasIPred c = some t') {n : InstSeqNum} (mem : n ∈ t'.seqNums) :
    n ∈ t.seqNums ∨ c.predicted = some n := by
  have squashed (squashedSN : InstSeqNum) (mem : n ∈ (t.squash squashedSN).seqNums) :
      n ∈ t.seqNums := by
    rw [seqNums, squash, squashHist_predHist] at mem
    exact ((dropWhile_sublist _).map _).subset mem
  cases c with
  | predict inst seqNum pc ans =>
    cases stepped
    obtain ⟨e, hist, own⟩ := predict_predHist t isa hasIPred inst seqNum pc ans
    rw [seqNums, hist, List.map_cons, own] at mem
    rcases List.mem_cons.mp mem with rfl | mem
    · exact Or.inr rfl
    · exact Or.inl mem
  | update =>
    cases stepped
    exact Or.inl ((( rdropWhile_prefix _ _).sublist.map _).subset mem)
  | squash squashedSN =>
    cases stepped
    exact Or.inl (squashed squashedSN mem)
  | squashTo squashedSN corrTarget actuallyTaken =>
    rw [squashTo_seqNums stepped] at mem
    exact Or.inl (squashed squashedSN mem)

theorem mem_seqNums_run {t t' : Thread PC N} {calls : List (Call PC)}
    (run : t.run isa hasIPred calls = some t') {n : InstSeqNum} (mem : n ∈ t'.seqNums) :
    n ∈ t.seqNums ∨ n ∈ calls.filterMap Call.predicted := by
  induction calls generalizing t with
  | nil =>
    cases run
    exact Or.inl mem
  | cons c calls ih => grind [Thread.run, mem_seqNums_step]

/-- Every function call is pushed at a height below `g`, counted from the prediction `sn`. -/
def PushesBelow (isa : Isa PC) (hasIPred : Bool) (sn : InstSeqNum) (g : Int) (t : Thread PC N)
    (calls : List (Call PC)) : Prop :=
  t.Along isa hasIPred (fun t c => c.pushes = true → t.heightSince sn < g) calls

/-- A call that respects which returns have nothing recorded. -/
structure Respects (unrecorded : InstSeqNum → Prop) (c : Call PC) : Prop where
  untaken : ∀ n, c.untakenReturn = some n → unrecorded n
  taken : ∀ n, c.resolvedTaken = some n → ¬ unrecorded n

theorem Held.step {t t' : Thread PC N} {c : Call PC} (h : Held unrecorded top old sn t)
    (stepped : t.step isa hasIPred c = some t') (later : ∀ n, c.predicted = some n → sn < n)
    (respects : Respects unrecorded c)
    (low : c.pushes = true → old.tos.val + t.heightSince sn < top) :
    Held unrecorded top old sn t' := by
  intro kept
  have before : sn ∈ t.seqNums := by
    rcases mem_seqNums_step stepped kept with mem | own
    · exact mem
    · exact absurd (later sn own) (Nat.lt_irrefl sn)
  obtain ⟨younger, e, older, since⟩ := h before
  rw [since.heightSince] at low
  cases c with
  | predict inst seqNum pc ans =>
    cases stepped
    obtain ⟨d, hist, own, rec⟩ := predict_recovers isa hasIPred inst seqNum pc ans
      since.recovers
      (fun call ret takes => low (by simp [Call.pushes, call, ret, takes]))
      (fun ret takes => respects.untaken seqNum (by simp [Call.untakenReturn, ret, takes]))
    refine ⟨d :: younger, e, older, ?_, ?_, since.own, since.elder, rec⟩
    · rw [hist, since.records]
      rfl
    · intro x hx
      rcases List.mem_cons.mp hx with rfl | hx
      · rw [own]
        exact later seqNum rfl
      · exact since.younger x hx
  | update =>
    cases stepped
    obtain ⟨older', since'⟩ := since.update kept
    exact ⟨younger, e, older', since'⟩
  | squash =>
    cases stepped
    obtain ⟨younger', since'⟩ := since.squash kept
    exact ⟨younger', e, older, since'⟩
  | squashTo squashedSN corrTarget actuallyTaken =>
    obtain ⟨younger', e', since'⟩ := since.squashTo stepped kept fun taken =>
      respects.taken squashedSN (by rw [taken]; rfl)
    exact ⟨younger', e', older, since'⟩

theorem Held.run {t t' : Thread PC N} {calls : List (Call PC)} {g : Int}
    (h : Held unrecorded (old.tos.val + g) old sn t) (run : t.run isa hasIPred calls = some t')
    (later : ∀ n ∈ calls.filterMap Call.predicted, sn < n)
    (respects : ∀ c ∈ calls, Respects unrecorded c) (low : PushesBelow isa hasIPred sn g t calls) :
    Held unrecorded (old.tos.val + g) old sn t' := by
  induction calls generalizing t with
  | nil =>
    cases run
    exact h
  | cons c calls ih =>
    rw [Thread.run] at run
    split at run
    · cases run
    · rename_i stepped
      rw [PushesBelow, Along, stepped] at low
      obtain ⟨here, onwards⟩ := low
      refine ih (h.step stepped ?_ (respects c List.mem_cons_self) fun pushes => ?_) run ?_ ?_
        onwards
      · exact fun n own => later n (List.mem_filterMap.mpr ⟨c, List.mem_cons_self, own⟩)
      · have := here pushes
        omega
      · grind
      · exact fun d hd => respects d (List.mem_cons_of_mem _ hd)

theorem Held.recovered {t : Thread PC N} (h : Held unrecorded top old sn t)
    (recorded : sn ∈ t.seqNums) {squashedSN : InstSeqNum} (squashed : squashedSN < sn)
    (first : ∀ n ∈ t.seqNums, n < sn → n ≤ squashedSN) :
    Recovers unrecorded top old (t.squash squashedSN).ras [] := by
  obtain ⟨younger, e, older, since⟩ := h recorded
  have all : ∀ d ∈ younger ++ [e], squashedSN < d.seqNum := by
    intro d hd
    rcases List.mem_append.mp hd with hd | hd
    · exact Nat.lt_trans squashed (since.younger d hd)
    · grind [since.own]
  obtain ⟨ras', eq, rec⟩ := squashHist_all older since.recovers all
  rw [Thread.squash, since.records, append_cons, eq]
  cases older with
  | nil => exact rec
  | cons d older =>
    have stays : ¬ squashedSN < d.seqNum := by
      refine Nat.not_lt.mpr (first d.seqNum ?_ (since.elder d List.mem_cons_self))
      rw [seqNums, since.records]
      exact List.mem_map.mpr ⟨d, by simp, rfl⟩
    rw [squashHist, if_neg stays]
    exact rec

/-- No return predicted not taken is found to be taken. -/
def NoReturnTurnsTaken (calls : List (Call PC)) : Prop :=
  ∀ c ∈ calls, ∀ d ∈ calls, ∀ n, c.untakenReturn = some n → d.resolvedTaken ≠ some n

theorem Held.start {t : Thread PC N} {inst : StaticInst PC} {pc : PC} {ans : Answers PC} {g : Int}
    (elder : ∀ n ∈ t.seqNums, n < sn) (nonneg : 0 ≤ g)
    (respects : Respects unrecorded (.predict inst sn pc ans))
    (low : (Call.predict inst sn pc ans).pushes = true → t.heightSince sn < g) :
    Held unrecorded (t.ras.tos.val + g) t.ras sn (t.predict isa hasIPred inst sn pc ans).2.2 := by
  intro _
  have none : t.heightSince sn = 0 := by
    have drop : t.predHist.filter (fun d => sn ≤ d.seqNum) = [] :=
      List.filter_eq_nil_iff.mpr fun d hd => by
        simpa using elder d.seqNum (List.mem_map.mpr ⟨d, hd, rfl⟩)
    rw [heightSince, drop, height]
  have start : Recovers unrecorded (t.ras.tos.val + g) t.ras t.ras [] :=
    recovers_start (by omega)
  obtain ⟨e, hist, own, rec⟩ := predict_recovers isa hasIPred inst sn pc ans start
    (fun call ret takes => by
      have := low (by simp [Call.pushes, call, ret, takes])
      rw [height]
      omega)
    (fun ret takes => respects.untaken sn (by simp [Call.untakenReturn, ret, takes]))
  exact ⟨[], e, t.predHist, hist, by simp, own,
    fun d hd => elder d.seqNum (List.mem_map.mpr ⟨d, hd, rfl⟩), rec⟩

theorem run_recovers {t₀ t₂ : Thread PC N} {inst : StaticInst PC} {pc : PC} {ans : Answers PC}
    {calls : List (Call PC)} {g : Nat}
    (run : t₀.run isa hasIPred (.predict inst sn pc ans :: calls) = some t₂)
    (elder : ∀ n ∈ t₀.seqNums, n < sn) (later : ∀ n ∈ calls.filterMap Call.predicted, sn < n)
    (turns : NoReturnTurnsTaken (.predict inst sn pc ans :: calls))
    (low : PushesBelow isa hasIPred sn g t₀ (.predict inst sn pc ans :: calls)) :
    Held (fun n => ∃ c ∈ Call.predict inst sn pc ans :: calls, c.untakenReturn = some n)
      (t₀.ras.tos.val + g) t₀.ras sn t₂ := by
  have respects : ∀ c ∈ Call.predict inst sn pc ans :: calls,
      Respects (fun n => ∃ c ∈ Call.predict inst sn pc ans :: calls,
        c.untakenReturn = some n) c := by
    intro c hc
    refine ⟨fun n untaken => ⟨c, hc, untaken⟩, ?_⟩
    rintro n taken ⟨d, hd, untaken⟩
    exact turns d hd c hc n untaken taken
  obtain ⟨here, onwards⟩ := low
  refine (Held.start elder (by omega) (respects _ List.mem_cons_self) here).run run later ?_
    onwards
  exact fun c hc => respects c (List.mem_cons_of_mem _ hc)

/-- Fewer than `N` records have a function call pushed, after every call. -/
def FewPushed (isa : Isa PC) (hasIPred : Bool) (t : Thread PC N) (calls : List (Call PC)) : Prop :=
  t.Along isa hasIPred (fun t c => (t.step isa hasIPred c).all fun t' =>
    decide (t'.predHist.countP (·.pushedRAS) < N)) calls

end Thread

namespace BPredUnit

variable {isa : Isa PC} {hasIPred : Bool} {tid : ThreadID}
  {before after : List (ThreadID × Call PC)} {inst : StaticInst PC}
  {sn squashedSN : InstSeqNum} {pc : PC} {ans : Answers PC} {s₀ s₂ s₃ : BPredUnit PC N} {g : Nat}

theorem elder_records (start : (init isa hasIPred).run before = some s₀)
    (increasing : ((callsOf tid (before ++ (tid, .predict inst sn pc ans) :: after)).filterMap
      Call.predicted).Pairwise (· < ·)) :
    ∀ n ∈ (s₀.threads tid).seqNums, n < sn := by
  intro n mem
  rw [callsOf_append, filterMap_append, pairwise_append] at increasing
  rcases Thread.mem_seqNums_run (run_thread start tid) mem with none | made
  · exact absurd none (by simp [init, Thread.init, Thread.seqNums])
  · exact increasing.2.2 n made sn (by simp [callsOf, Call.predicted])

/-- A squash brings back the top index of the first squashed prediction, and the entries that a
stack at most `g` higher has not overwritten. -/
theorem squash_recovers (start : (init isa hasIPred).run before = some s₀)
    (run : s₀.run ((tid, .predict inst sn pc ans) :: after) = some s₂)
    (squash : s₂.step tid (.squash squashedSN) = some s₃)
    (recorded : sn ∈ (s₂.threads tid).seqNums) (squashed : squashedSN < sn)
    (first : ∀ n ∈ (s₂.threads tid).seqNums, n < sn → n ≤ squashedSN)
    (increasing : ((callsOf tid (before ++ (tid, .predict inst sn pc ans) :: after)).filterMap
      Call.predicted).Pairwise (· < ·))
    (turns : Thread.NoReturnTurnsTaken (callsOf tid ((tid, .predict inst sn pc ans) :: after)))
    (low : Thread.PushesBelow isa hasIPred sn g (s₀.threads tid)
      (callsOf tid ((tid, .predict inst sn pc ans) :: after))) :
    (s₃.threads tid).ras.topIdx = (s₀.threads tid).ras.topIdx ∧
      ∀ d : Nat, d + g < N →
        (s₃.threads tid).ras.addrStack ((s₃.threads tid).ras.below d) =
          (s₀.threads tid).ras.addrStack ((s₀.threads tid).ras.below d) := by
  have elder := elder_records start increasing
  have own : callsOf tid ((tid, .predict inst sn pc ans) :: after)
      = .predict inst sn pc ans :: callsOf tid after := if_pos rfl
  have moved := run_thread run tid
  rw [(run_isa start).1, (run_isa start).2, own] at moved
  rw [callsOf_append, List.filterMap_append, List.pairwise_append, own] at increasing
  rw [own] at turns low
  have later : ∀ n ∈ (callsOf tid after).filterMap Call.predicted, sn < n :=
    fun n hn => List.rel_of_pairwise_cons increasing.2.1 hn
  have recovers := (Thread.run_recovers moved elder later turns low).recovered
    recorded squashed first
  have stepped : s₃.threads tid = (s₂.threads tid).squash squashedSN := by
    cases squash
    exact Function.update_self _ _ _
  rw [stepped]
  have tos : ((s₂.threads tid).squash squashedSN).ras.tos = (s₀.threads tid).ras.tos := by
    rw [recovers.tos, height, Int.add_zero, Ring.slot_coe]
  refine ⟨tos, fun d near => ?_⟩
  rw [ReturnAddrStack.below, ReturnAddrStack.below, tos]
  exact recovers.undoable _ (by omega) (by omega)

/-- A call is pushed over the oldest entry, and its squash does not bring that back. -/
theorem push_overwrites :
    ¬ ∀ (PC : Type) (N : Nat) [NeZero N] (isa : Isa PC) (hasIPred : Bool) (tid : ThreadID)
      (before after : List (ThreadID × Call PC)) (inst : StaticInst PC)
      (sn squashedSN : InstSeqNum) (pc : PC) (ans : Answers PC) (s₀ s₂ s₃ : BPredUnit PC N),
      (init isa hasIPred).run before = some s₀ →
      s₀.run ((tid, .predict inst sn pc ans) :: after) = some s₂ →
      s₂.step tid (.squash squashedSN) = some s₃ →
      sn ∈ (s₂.threads tid).seqNums → squashedSN < sn →
      (∀ n ∈ (s₂.threads tid).seqNums, n < sn → n ≤ squashedSN) →
      ((callsOf tid (before ++ (tid, .predict inst sn pc ans) :: after)).filterMap
        Call.predicted).Pairwise (· < ·) →
      Thread.FewPushed isa hasIPred (.init isa : Thread PC N)
        (callsOf tid (before ++ (tid, .predict inst sn pc ans) :: after)) →
      (s₃.threads tid).ras.topIdx = (s₀.threads tid).ras.topIdx ∧
        ∀ i, (s₃.threads tid).ras.addrStack i = (s₀.threads tid).ras.addrStack i := by
  intro claim
  have same := (claim Addr 2 ⟨id, id, fun _ callPC => callPC⟩ false 0 [] []
    ⟨true, false, true, true, id⟩ 1 0 0x80#64 ⟨true, none, none⟩ _ _ _ rfl rfl rfl
    (by decide) (by decide) (by decide) (by decide) ⟨by decide, trivial⟩).2 1
  exact absurd same (by decide)

def plainIsa : Isa Addr := ⟨id, id, fun _ callPC => callPC⟩

def directCall : StaticInst Addr := ⟨true, false, true, true, id⟩

def plainReturn : StaticInst Addr := ⟨true, true, false, false, id⟩

/-- A return and a call after it are squashed; the call was pushed over the popped entry. -/
theorem squash_recovers_run :
    ∃ s₀ s₂ s₃ : BPredUnit Addr 4,
      (init plainIsa false).run [(0, .predict directCall 1 0x80 ⟨true, some 0x200, none⟩)]
        = some s₀ ∧
      s₀.run
        [(0, .predict plainReturn 2 0x204 ⟨true, none, none⟩),
         (1, .predict directCall 3 0x300 ⟨true, none, none⟩),
         (0, .predict directCall 4 0x84 ⟨true, some 0x400, none⟩)]
        = some s₂ ∧
      s₂.step 0 (.squash 1) = some s₃ ∧
      (s₃.threads 0).ras.topIdx = (s₀.threads 0).ras.topIdx ∧
      ∀ d : Nat, d + 0 < 4 →
        (s₃.threads 0).ras.addrStack ((s₃.threads 0).ras.below d) =
          (s₀.threads 0).ras.addrStack ((s₀.threads 0).ras.below d) := by
  refine ⟨_, _, _, rfl, rfl, rfl, ?_⟩
  exact @squash_recovers Addr 4 _ plainIsa false 0
    [(0, .predict directCall 1 0x80 ⟨true, some 0x200, none⟩)]
    [(1, .predict directCall 3 0x300 ⟨true, none, none⟩),
     (0, .predict directCall 4 0x84 ⟨true, some 0x400, none⟩)]
    plainReturn 2 1 0x204 ⟨true, none, none⟩ _ _ _ 0 rfl rfl rfl
    (by decide) (by decide) (by decide) (by decide)
    (by simp [Thread.NoReturnTurnsTaken, callsOf, Call.untakenReturn, Thread.takes, plainReturn,
      directCall])
    (by rw [Thread.PushesBelow]; decide)

end BPredUnit

end Gem5.Pred
