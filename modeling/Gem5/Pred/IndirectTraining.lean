import Gem5.Lib.Runs
import Gem5.Pred.SimpleIndirect

/-!
# Where indirect targets are trained

While a predicted indirect branch is in flight its entry stays on the path, and as many entries
before it as the hash reads stay what they were when it was looked up.
-/

namespace Gem5.Pred.SimpleIndirect

open Driver

variable {h : HistoryEntry} {before : List HistoryEntry}

variable {PC σ η : Type} {N : Nat}

/-- A driven unit with the youngest committed sequence number, and where each indirect branch was
looked up when it was predicted last. -/
structure Traced (PC σ η : Type) (N : Nat) where
  unit : Driver PC σ η (SimpleIndirect PC) (BitVec 32) N
  done : InstSeqNum
  lookedUp : InstSeqNum → Option Place

namespace Traced

variable [NeZero N] (p : Predictors PC σ η (SimpleIndirect PC) (BitVec 32)) (prm : IndirectParams)
  (s : Traced PC σ η N)

def init (isa : Isa PC) (dir : σ) : Traced PC σ η N :=
  ⟨.init isa dir (SimpleIndirect.init prm isa), 0, fun _ => none⟩

/-- The lookup of a prediction, if there is one. -/
def log : Driver.Call PC → InstSeqNum → Option Place
  | .predict inst seqNum pc btb =>
    let addr := p.isa.instAddr pc
    if p.hasIPred && asksIndirect p inst (redirect p s.unit inst addr btb).1 then
      Function.update s.lookedUp seqNum
        (some (place prm s.unit.ind.pathHist addr s.unit.ind.ghr))
    else s.lookedUp
  | _ => s.lookedUp

def step (c : Driver.Call PC) : Option (Traced PC σ η N) :=
  (s.unit.step p c).map fun unit =>
    { unit := unit
      done := match c with
        | .update doneSN => max s.done doneSN
        | _ => s.done
      lookedUp := log p prm s c }

/-- Sequence numbers grow from branch to branch, and what is committed is not squashed. -/
def Allowed : Driver.Call PC → Prop
  | .predict _ seqNum _ _ => s.done < seqNum ∧ ∀ e ∈ s.unit.predHist, e.seqNum < seqNum
  | .update _ => True
  | .squash squashedSN => s.done ≤ squashedSN
  | .squashTo squashedSN _ _ _ => s.done ≤ squashedSN

end Traced

/-- The call of `recordTarget` in a squash: its record, and the indirect predictor that it
finds. -/
structure RecordsTarget (p : Predictors PC σ η (SimpleIndirect PC) (BitVec 32))
    (u : Driver PC σ η (SimpleIndirect PC) (BitVec 32) N) (squashedSN : InstSeqNum)
    (actuallyTaken : Bool) (e : Record PC η (BitVec 32) N) (ind : SimpleIndirect PC) : Prop where
  front : (u.squash p squashedSN).predHist.head? = some e
  own : e.seqNum = squashedSN
  taken : actuallyTaken = true
  indirect : e.wasIndirect = true
  found : ind = corrected p (u.squash p squashedSN).ind e actuallyTaken

def seqNums (path : List HistoryEntry) : List InstSeqNum := path.map HistoryEntry.seqNum

/-- The entry of a branch with what is hashed before it. -/
def Placed (prm : IndirectParams) (lookedUp : InstSeqNum → Option Place) (path : List HistoryEntry)
    (seqNum : InstSeqNum) (ghr : BitVec 32) : Prop :=
  ∃ before h after, path = before ++ h :: after ∧ h.seqNum = seqNum
    ∧ lookedUp seqNum = some (place prm before h.pcAddr ghr)

/-- The path is sorted, and its head entries are committed. -/
structure Path (t : SimpleIndirect PC) (done : InstSeqNum) : Prop where
  sorted : (seqNums t.pathHist).Pairwise (· < ·)
  head : t.headHistEntry ≤ t.pathHist.length
  committed : ∀ n ∈ (seqNums t.pathHist).take t.headHistEntry, n ≤ done

section Path

variable {prm : IndirectParams} {lookedUp : InstSeqNum → Option Place} {t : SimpleIndirect PC}
  {done sn : InstSeqNum} {ghr : BitVec 32}

theorem Path.congr {t' : SimpleIndirect PC} (path : Path t done)
    (nums : seqNums t'.pathHist = seqNums t.pathHist) (head : t'.headHistEntry = t.headHistEntry) :
    Path t' done := by
  have length : t'.pathHist.length = t.pathHist.length := by
    simpa [seqNums] using congrArg List.length nums
  refine ⟨nums ▸ path.sorted, ?_, fun n mem => ?_⟩
  · rw [head, length]
    exact path.head
  · rw [nums, head] at mem
    exact path.committed n mem

theorem Path.mono {done' : InstSeqNum} (path : Path t done) (le : done ≤ done') : Path t done' :=
  ⟨path.sorted, path.head, fun n mem => (path.committed n mem).trans le⟩

theorem commit_cases (prm : IndirectParams) (t : SimpleIndirect PC) (doneSN : InstSeqNum) :
    commit prm t doneSN = t
      ∨ ∃ h, t.pathHist[t.headHistEntry]? = some h ∧ h.seqNum ≤ doneSN
        ∧ (commit prm t doneSN = { t with headHistEntry := t.headHistEntry + 1 }
          ∨ prm.pathLength ≤ t.headHistEntry
            ∧ commit prm t doneSN = { t with pathHist := t.pathHist.tail }) := by
  rw [commit]
  cases front : t.pathHist[t.headHistEntry]? with
  | none => exact Or.inl rfl
  | some h => grind

theorem Path.next (path : Path t done) (front : t.pathHist[t.headHistEntry]? = some h)
    (le : h.seqNum ≤ done) : ∀ n ∈ (seqNums t.pathHist).take (t.headHistEntry + 1), n ≤ done := by
  intro n mem
  rw [List.take_add_one, List.mem_append] at mem
  rcases mem with mem | mem
  · exact path.committed n mem
  · grind [seqNums]

theorem Path.commit (path : Path t done) {doneSN : InstSeqNum} (by_ : doneSN ≤ done) :
    Path (commit prm t doneSN) done := by
  rcases commit_cases prm t doneSN with same | ⟨h, front, le, moved | ⟨-, popped⟩⟩
  · rw [same]
    exact path
  · obtain ⟨lt, -⟩ := List.getElem?_eq_some_iff.mp front
    rw [moved]
    exact ⟨path.sorted, lt, path.next front (le.trans by_)⟩
  · obtain ⟨lt, -⟩ := List.getElem?_eq_some_iff.mp front
    have next := path.next front (le.trans by_)
    have sorted := path.sorted
    rw [popped]
    cases cons : t.pathHist with
    | nil => simp [cons] at lt
    | cons =>
      rw [cons] at lt
      rw [cons, seqNums, List.map_cons] at sorted next
      refine ⟨sorted.of_cons, Nat.lt_succ_iff.mp lt, fun n mem => next n ?_⟩
      exact List.mem_cons_of_mem _ mem

theorem Placed.commit (path : Path t done) (placed : Placed prm lookedUp t.pathHist sn ghr)
    {doneSN : InstSeqNum} (young : doneSN < sn) :
    Placed prm lookedUp (commit prm t doneSN).pathHist sn ghr := by
  rcases commit_cases prm t doneSN with same | ⟨x, front, le, moved | ⟨full, popped⟩⟩
  · rw [same]
    exact placed
  · rw [moved]
    exact placed
  · rw [popped]
    obtain ⟨before, h, after, split, own, log⟩ := placed
    -- the entry lies behind the head entry, which is committed
    have behind : t.headHistEntry < before.length := by
      by_contra outside
      have last : h.seqNum ≤ x.seqNum := by
        have sorted := path.sorted
        rw [seqNums, split, List.map_append, List.map_cons] at sorted
        rw [split, List.getElem?_append_right (Nat.not_lt.mp outside)] at front
        rcases List.mem_cons.mp (List.mem_of_getElem? front) with rfl | later
        · exact Nat.le_refl _
        · have after := (List.pairwise_append.mp sorted).2.1
          exact Nat.le_of_lt (List.rel_of_pairwise_cons after (List.mem_map.mpr ⟨x, later, rfl⟩))
      exact absurd (own.ge.trans (last.trans le)) (Nat.not_le.mpr young)
    cases before with
    | nil => exact absurd behind (Nat.not_lt_zero _)
    | cons y before =>
      refine ⟨before, h, after, by rw [split]; rfl, own, ?_⟩
      rw [log, show y :: before = [y] ++ before from rfl, place_append]
      exact full.trans (Nat.lt_succ_iff.mp behind)

theorem Path.append {t' : SimpleIndirect PC} {e : HistoryEntry} (path : Path t done)
    (younger : ∀ n ∈ seqNums t.pathHist, n < e.seqNum) (grown : t'.pathHist = t.pathHist ++ [e])
    (head : t'.headHistEntry = t.headHistEntry) : Path t' done := by
  have nums : seqNums t'.pathHist = seqNums t.pathHist ++ [e.seqNum] := by
    rw [grown, seqNums, List.map_append]
    rfl
  have short : t.headHistEntry ≤ (seqNums t.pathHist).length := by
    rw [seqNums, List.length_map]
    exact path.head
  refine ⟨?_, ?_, fun n mem => ?_⟩
  · rw [nums]
    refine List.pairwise_append.mpr ⟨path.sorted, List.pairwise_singleton _ _, ?_⟩
    intro n mem m last
    exact (List.mem_singleton.mp last).symm ▸ younger n mem
  · rw [grown, head, List.length_append]
    exact path.head.trans (Nat.le_add_right _ _)
  · rw [nums, head, List.take_append_of_le_length short] at mem
    exact path.committed n mem

theorem Placed.append {pathHist : List HistoryEntry} (placed : Placed prm lookedUp pathHist sn ghr)
    (e : HistoryEntry) (older : sn ≠ e.seqNum) (at_ : Option Place) :
    Placed prm (Function.update lookedUp e.seqNum at_) (pathHist ++ [e]) sn ghr := by
  obtain ⟨before, h, after, split, own, log⟩ := placed
  refine ⟨before, h, after ++ [e], ?_, own, ?_⟩
  · rw [split, List.append_assoc, List.cons_append]
  · rw [Function.update_of_ne older]
    exact log

theorem squash_pathHist (path : Path t done) (sn : InstSeqNum) :
    (squash t sn).pathHist = t.pathHist.filter fun h => h.seqNum ≤ sn := by
  refine Cuts.takeWhile_eq_filter ?_
  have sorted := List.pairwise_map.mp path.sorted
  exact sorted.imp fun lt le => decide_eq_true ((Nat.le_of_lt lt).trans (of_decide_eq_true le))

theorem Path.squash (path : Path t done) (kept : done ≤ sn) : Path (squash t sn) done := by
  have front : (t.pathHist.take t.headHistEntry).takeWhile (fun h => h.seqNum ≤ sn)
      = t.pathHist.take t.headHistEntry := by
    refine List.takeWhile_eq_self_iff.mpr fun h mem => decide_eq_true ?_
    refine (path.committed h.seqNum ?_).trans kept
    rw [seqNums, ← List.map_take]
    exact List.mem_map_of_mem mem
  have head : (SimpleIndirect.squash t sn).pathHist = t.pathHist.take t.headHistEntry
      ++ (t.pathHist.drop t.headHistEntry).takeWhile fun h => h.seqNum ≤ sn := by
    rw [SimpleIndirect.squash]
    conv_lhs => rw [← List.take_append_drop t.headHistEntry t.pathHist]
    exact List.takeWhile_append_of_pos (List.takeWhile_eq_self_iff.mp front)
  have length : (t.pathHist.take t.headHistEntry).length = t.headHistEntry :=
    List.length_take_of_le path.head
  refine ⟨path.sorted.sublist ((List.takeWhile_sublist _).map _), ?_, fun n mem => ?_⟩
  · rw [head, List.length_append, length]
    exact Nat.le_add_right _ _
  · have same : (SimpleIndirect.squash t sn).headHistEntry = t.headHistEntry := rfl
    rw [same, seqNums, ← List.map_take, head, List.take_append_of_le_length length.ge,
      List.take_of_length_le length.le, List.map_take] at mem
    exact path.committed n mem

theorem Placed.squash (path : Path t done) (placed : Placed prm lookedUp t.pathHist sn ghr)
    {squashedSN : InstSeqNum} (old : sn ≤ squashedSN) :
    Placed prm lookedUp (squash t squashedSN).pathHist sn ghr := by
  rw [squash_pathHist path]
  obtain ⟨before, h, after, split, own, log⟩ := placed
  have sorted := path.sorted
  rw [seqNums, split, List.map_append, List.map_cons] at sorted
  have all : before.filter (fun x => x.seqNum ≤ squashedSN) = before := by
    refine List.filter_eq_self.mpr fun x mem => decide_eq_true ?_
    have lt := (List.pairwise_append.mp sorted).2.2 x.seqNum (List.mem_map_of_mem mem) h.seqNum
      List.mem_cons_self
    exact (Nat.le_of_lt lt).trans (own.le.trans old)
  refine ⟨before, h, after.filter fun x => x.seqNum ≤ squashedSN, ?_, own, log⟩
  rw [split, List.filter_append, all, List.filter_cons,
    if_pos (decide_eq_true (own.le.trans old))]

theorem commit_sublist (doneSN : InstSeqNum) :
    (commit prm t doneSN).pathHist.Sublist t.pathHist := by
  rcases commit_cases prm t doneSN with same | ⟨h, -, -, moved | ⟨-, popped⟩⟩
  · rw [same]
  · rw [moved]
  · rw [popped]
    exact List.tail_sublist _

end Path

/-- Every indirect branch in flight has its entry on the path, and every other entry is
committed. -/
structure Inv (prm : IndirectParams) (s : Traced PC σ η N) : Prop where
  path : Path s.unit.ind s.done
  young : ∀ e ∈ s.unit.predHist, s.done < e.seqNum
  order : s.unit.predHist.Pairwise fun e d => d.seqNum < e.seqNum
  owned : ∀ n ∈ seqNums s.unit.ind.pathHist,
    n ≤ s.done ∨ ∃ e ∈ s.unit.predHist, e.seqNum = n
  placed : ∀ e ∈ s.unit.predHist, e.wasIndirect = true →
    Placed prm s.lookedUp s.unit.ind.pathHist e.seqNum e.indirectHistory

section Step

variable {p : Predictors PC σ η (SimpleIndirect PC) (BitVec 32)} {prm : IndirectParams}
  {s : Traced PC σ η N}

theorem init_inv [NeZero N] (isa : Isa PC) (dir : σ) :
    Inv prm (Traced.init prm isa dir : Traced PC σ η N) :=
  ⟨⟨List.Pairwise.nil, Nat.le_refl 0, fun _ mem => absurd mem List.not_mem_nil⟩,
    fun _ mem => absurd mem List.not_mem_nil, List.Pairwise.nil,
    fun _ mem => absurd mem List.not_mem_nil, fun _ mem => absurd mem List.not_mem_nil⟩

variable (simple : p.iPred = SimpleIndirect.indirect prm p.isa) (inv : Inv prm s)

include inv

theorem left_eq (doneSN : InstSeqNum) : (s.unit.update p doneSN).predHist
    = s.unit.predHist.filter fun e => !decide (e.seqNum ≤ doneSN) := by
  rw [update_predHist]
  refine Cuts.rdropWhile_eq_filter (inv.order.imp fun lt le => ?_)
  exact decide_eq_true ((Nat.le_of_lt lt).trans (of_decide_eq_true le))

theorem kept_eq (squashedSN : InstSeqNum) : (s.unit.squash p squashedSN).predHist
    = s.unit.predHist.filter fun e => !decide (squashedSN < e.seqNum) := by
  rw [Driver.squash, squashLoop_predHist]
  refine Cuts.dropWhile_eq_filter (inv.order.imp fun lt young => ?_)
  exact decide_eq_true ((of_decide_eq_true young).trans lt)

include simple

theorem Inv.update (doneSN : InstSeqNum) :
    Inv prm ⟨s.unit.update p doneSN, max s.done doneSN, s.lookedUp⟩ := by
  have left := left_eq (p := p) inv doneSN
  have kept : ∀ e ∈ (s.unit.update p doneSN).predHist, e ∈ s.unit.predHist ∧ doneSN < e.seqNum := by
    intro e mem
    rw [left] at mem
    simpa using mem
  obtain ⟨path, sub, placed⟩ : Path (s.unit.update p doneSN).ind (max s.done doneSN)
      ∧ (s.unit.update p doneSN).ind.pathHist.Sublist s.unit.ind.pathHist
      ∧ ∀ e ∈ (s.unit.update p doneSN).predHist, e.wasIndirect = true →
        Placed prm s.lookedUp (s.unit.update p doneSN).ind.pathHist e.seqNum e.indirectHistory := by
    refine updateLoop_keeps (P := fun t => Path t (max s.done doneSN)
      ∧ t.pathHist.Sublist s.unit.ind.pathHist
      ∧ ∀ e ∈ (s.unit.update p doneSN).predHist, e.wasIndirect = true →
        Placed prm s.lookedUp t.pathHist e.seqNum e.indirectHistory)
      ⟨inv.path.mono (le_max_left _ _), List.Sublist.refl _,
        fun e mem was => inv.placed e (kept e mem).1 was⟩ ?_
    rintro t ghr ⟨path, sub, placed⟩
    rw [simple]
    exact ⟨path.commit (le_max_right _ _), (commit_sublist doneSN).trans sub,
      fun e mem was => (placed e mem was).commit path (kept e mem).2⟩
  refine ⟨path, fun e mem => ?_, ?_, fun n mem => ?_, placed⟩
  · obtain ⟨old, lt⟩ := kept e mem
    exact max_lt (inv.young e old) lt
  · exact inv.order.sublist (by rw [left]; exact List.filter_sublist)
  · rcases inv.owned n ((sub.map _).subset mem) with le | ⟨e, old, own⟩
    · exact Or.inl (le.trans (le_max_left _ _))
    · grind

omit inv in
theorem squash_ind (has : p.hasIPred = true) (squashedSN : InstSeqNum) :
    (s.unit.squash p squashedSN).ind.pathHist
        = (SimpleIndirect.squash s.unit.ind squashedSN).pathHist
      ∧ (s.unit.squash p squashedSN).ind.headHistEntry = s.unit.ind.headHistEntry := by
  refine squashLoop_keeps (P := fun t : SimpleIndirect PC => t.pathHist
    = (SimpleIndirect.squash s.unit.ind squashedSN).pathHist
      ∧ t.headHistEntry = s.unit.ind.headHistEntry) ?_ ?_
  · rw [if_pos has, simple]
    exact ⟨rfl, rfl⟩
  · intro t ghr kept
    rw [simple]
    exact kept

theorem Inv.squash (has : p.hasIPred = true) {squashedSN : InstSeqNum}
    (kept : s.done ≤ squashedSN) : Inv prm ⟨s.unit.squash p squashedSN, s.done, s.lookedUp⟩ := by
  obtain ⟨path, head⟩ := squash_ind (s := s) simple has squashedSN
  have left := kept_eq (p := p) inv squashedSN
  have old : ∀ e, e ∈ (s.unit.squash p squashedSN).predHist
      ↔ e ∈ s.unit.predHist ∧ e.seqNum ≤ squashedSN := by
    rw [left]
    simp
  refine ⟨(inv.path.squash kept).congr (congrArg _ path) head, fun e mem => ?_, ?_, fun n mem => ?_,
    fun e mem was => ?_⟩
  · exact inv.young e ((old e).mp mem).1
  · exact inv.order.sublist (by rw [left]; exact List.filter_sublist)
  · have mem : n ∈ seqNums (s.unit.squash p squashedSN).ind.pathHist := mem
    rw [path, squash_pathHist inv.path] at mem
    obtain ⟨h, left, rfl⟩ := List.mem_map.mp mem
    obtain ⟨on, le⟩ := List.mem_filter.mp left
    rcases inv.owned h.seqNum (List.mem_map.mpr ⟨h, on, rfl⟩) with done | ⟨e, record, own⟩
    · exact Or.inl done
    · exact Or.inr ⟨e, (old e).mpr ⟨record, own.le.trans (of_decide_eq_true le)⟩, own⟩
  · obtain ⟨mem, le⟩ := (old e).mp mem
    rw [path]
    exact (inv.placed e mem was).squash inv.path le

omit simple in
/-- The entry of the front record is the youngest one left, at the place where the branch was
looked up. -/
theorem Inv.recordPlace {squashedSN : InstSeqNum} (bound : ∀ h ∈ s.unit.ind.pathHist,
    h.seqNum ≤ squashedSN) {e : Record PC η (BitVec 32) N} (mem : e ∈ s.unit.predHist)
    (own : e.seqNum = squashedSN) (was : e.wasIndirect = true) :
    ∃ before h at_, s.unit.ind.pathHist = before ++ [h] ∧ h.seqNum = squashedSN
      ∧ at_ = place prm before h.pcAddr e.indirectHistory ∧ s.lookedUp squashedSN = some at_ := by
  obtain ⟨before, h, after, split, own', log⟩ := inv.placed e mem was
  have last : after = [] := by
    refine List.eq_nil_iff_forall_not_mem.mpr fun x later => ?_
    have sorted := inv.path.sorted
    rw [seqNums, split, List.map_append, List.map_cons] at sorted
    have lt : h.seqNum < x.seqNum :=
      List.rel_of_pairwise_cons (List.pairwise_append.mp sorted).2.1
        (List.mem_map.mpr ⟨x, later, rfl⟩)
    have le := bound x (by rw [split]; simp [later])
    exact absurd ((own.ge.trans own'.ge).trans_lt lt) (Nat.not_lt.mpr le)
  subst last
  exact ⟨before, h, _, split, own'.trans own, rfl, own ▸ log⟩

end Step

section Calls

variable {p : Predictors PC σ η (SimpleIndirect PC) (BitVec 32)} {prm : IndirectParams}
  {u u' : Driver PC σ η (SimpleIndirect PC) (BitVec 32) N} {done : InstSeqNum}
  {lookedUp : InstSeqNum → Option Place}

theorem Inv.replace {e e' : Record PC η (BitVec 32) N} {rest : List (Record PC η (BitVec 32) N)}
    (inv : Inv prm ⟨u, done, lookedUp⟩) (front : u.predHist = e :: rest)
    (front' : u'.predHist = e' :: rest) (own : e'.seqNum = e.seqNum)
    (was : e'.wasIndirect = e.wasIndirect) (ghr : e'.indirectHistory = e.indirectHistory)
    (nums : seqNums u'.ind.pathHist = seqNums u.ind.pathHist)
    (head : u'.ind.headHistEntry = u.ind.headHistEntry) (stays : ∀ d ∈ u.predHist, d.wasIndirect =
    true → Placed prm lookedUp u.ind.pathHist d.seqNum d.indirectHistory → Placed prm lookedUp
    u'.ind.pathHist d.seqNum d.indirectHistory) : Inv prm ⟨u', done, lookedUp⟩ := by
  obtain ⟨path, young, order, owned, placed⟩ := inv
  refine ⟨path.congr nums head, ?_, ?_, fun n mem => ?_, ?_⟩
  · grind
  · simp_all
  · grind
  · grind

theorem recordPlace_concat {t : SimpleIndirect PC} (split : t.pathHist = before ++ [h])
    (ghr : BitVec 32) : recordPlace prm t ghr = some (h, place prm before h.pcAddr ghr) := by
  rw [recordPlace, split, List.getLast?_concat, List.dropLast_concat]
  rfl

theorem recordTarget_concat {t : SimpleIndirect PC}
    (split : t.pathHist = before ++ [h]) (isa : Isa PC) (rand : Nat) (ghr : BitVec 32)
    (target : PC) : (recordTarget prm t isa rand ghr target).pathHist
        = before ++ [{ h with targetAddr := isa.instAddr target }]
      ∧ (recordTarget prm t isa rand ghr target).headHistEntry = t.headHistEntry := by
  rw [recordTarget, recordPlace_concat split, split, List.dropLast_concat]
  exact ⟨rfl, rfl⟩

theorem Placed.edit {sn : InstSeqNum}
    {ghr : BitVec 32} (placed : Placed prm lookedUp (before ++ [h]) sn ghr) (targetAddr : Addr) :
    Placed prm lookedUp (before ++ [{ h with targetAddr := targetAddr }]) sn ghr := by
  obtain ⟨pre, x, post, split, own, log⟩ := placed
  rcases List.eq_nil_or_concat post with rfl | ⟨post, y, rfl⟩
  · obtain ⟨rfl, eq⟩ := List.append_inj' split rfl
    cases eq
    exact ⟨before, _, [], rfl, own, log⟩
  · rw [List.concat_eq_append, ← List.cons_append, ← List.append_assoc] at split
    obtain ⟨rfl, -⟩ := List.append_inj' split rfl
    exact ⟨pre, x, post ++ [{ h with targetAddr := targetAddr }], by simp, own, log⟩

variable (simple : p.iPred = SimpleIndirect.indirect prm p.isa) (has : p.hasIPred = true)

include simple has

theorem corrected_eq (ind : SimpleIndirect PC) (e : Record PC η (BitVec 32) N)
    (actuallyTaken : Bool) : (corrected p ind e actuallyTaken).pathHist = ind.pathHist
      ∧ (corrected p ind e actuallyTaken).headHistEntry = ind.headHistEntry := by
  rw [corrected, if_pos has, simple]
  exact ⟨rfl, rfl⟩

theorem Inv.squashTo (inv : Inv prm ⟨u, done, lookedUp⟩) {squashedSN : InstSeqNum} {corrTarget : PC}
    {actuallyTaken : Bool} {rand : Nat} (kept : done ≤ squashedSN)
    (eq : u.squashTo p squashedSN corrTarget actuallyTaken rand = some u') :
    Inv prm ⟨u', done, lookedUp⟩ := by
  have squashed : Inv prm ⟨u.squash p squashedSN, done, lookedUp⟩ := inv.squash simple has kept
  have bound : ∀ h ∈ (u.squash p squashedSN).ind.pathHist, h.seqNum ≤ squashedSN := by
    rw [(squash_ind (s := ⟨u, done, lookedUp⟩) simple has squashedSN).1, squash_pathHist inv.path]
    exact fun h mem => of_decide_eq_true (List.mem_filter.mp mem).2
  rcases squashTo_cases eq with ⟨-, rfl⟩ |
    ⟨e, rest, e', front, own, front', own', was, ghr, ind⟩
  · exact squashed
  · obtain ⟨path, head⟩ := corrected_eq simple has (u.squash p squashedSN).ind e actuallyTaken
    by_cases records : actuallyTaken && e.wasIndirect && p.hasIPred
    · rw [if_pos records, simple] at ind
      simp only [Bool.and_eq_true] at records
      obtain ⟨before, h, at_, split, -, -, -⟩ := squashed.recordPlace bound
        (front ▸ List.mem_cons_self) own records.1.2
      have record : u'.ind.pathHist
          = before ++ [{ h with targetAddr := p.isa.instAddr corrTarget }]
            ∧ u'.ind.headHistEntry = (u.squash p squashedSN).ind.headHistEntry := by
        rw [ind]
        obtain ⟨path', head'⟩ := recordTarget_concat (path.trans split) p.isa rand
          e.indirectHistory corrTarget
        exact ⟨path', head'.trans head⟩
      refine squashed.replace front front' own' was ghr ?_ record.2 fun d mem indirect placed => ?_
      · rw [record.1, split]
        simp [seqNums]
      · rw [record.1]
        rw [split] at placed
        exact placed.edit _
    · rw [if_neg records] at ind
      refine squashed.replace front front' own' was ghr ?_ ?_ fun d mem indirect placed => ?_
      · rw [ind, path]
      · rw [ind, head]
      · rw [ind, path]
        exact placed

theorem recordPath_path (inst : StaticInst PC) (addr target : Addr) (seqNum : InstSeqNum)
    (origPredTaken : Bool) :
    (recordPath p u inst addr target seqNum origPredTaken).headHistEntry = u.ind.headHistEntry
      ∧ (recordPath p u inst addr target seqNum origPredTaken).pathHist
        = if asksIndirect p inst origPredTaken then u.ind.pathHist ++ [⟨addr, target, seqNum⟩]
          else u.ind.pathHist := by
  rw [recordPath, if_pos has, simple]
  split
  · exact ⟨rfl, rfl⟩
  · exact ⟨rfl, rfl⟩

theorem Inv.predict [NeZero N] {s : Traced PC σ η N} (inv : Inv prm s) {inst : StaticInst PC}
    {seqNum : InstSeqNum} {pc : PC} {btb : Option PC} (fresh : s.done < seqNum)
    (newest : ∀ e ∈ s.unit.predHist, e.seqNum < seqNum) :
    Inv prm ⟨(s.unit.predict p inst seqNum pc btb).2.2, s.done,
      s.log p prm (.predict inst seqNum pc btb)⟩ := by
  have nums : ∀ n ∈ seqNums s.unit.ind.pathHist, n < seqNum := by
    intro n mem
    rcases inv.owned n mem with le | ⟨e, mem, own⟩
    · exact le.trans_lt fresh
    · exact own.ge.trans_lt (newest e mem)
  generalize asked : asksIndirect p inst (redirect p s.unit inst (p.isa.instAddr pc) btb).1 = ask
  have was : (makeRecord p s.unit inst seqNum pc btb).wasIndirect = ask :=
    (makeRecord_wasIndirect inst seqNum pc btb).trans asked
  have own : (makeRecord p s.unit inst seqNum pc btb).seqNum = seqNum :=
    (outcome_predHist inst seqNum pc btb).2
  have ghr : (makeRecord p s.unit inst seqNum pc btb).indirectHistory = s.unit.ind.ghr := by
    rw [makeRecord, simple]
    rfl
  have log : s.log p prm (.predict inst seqNum pc btb)
      = if ask then Function.update s.lookedUp seqNum
          (some (place prm s.unit.ind.pathHist (p.isa.instAddr pc) s.unit.ind.ghr))
        else s.lookedUp := by
    rw [Traced.log, has, asked, Bool.true_and]
  obtain ⟨head, path⟩ := recordPath_path (u := s.unit) simple has inst (p.isa.instAddr pc)
    (p.isa.instAddr (outcome p s.unit inst seqNum pc btb).2.1) seqNum
    (redirect p s.unit inst (p.isa.instAddr pc) btb).1
  rw [asked] at path
  have young : ∀ e ∈ makeRecord p s.unit inst seqNum pc btb :: s.unit.predHist, s.done < e.seqNum :=
    List.forall_mem_cons.mpr ⟨own.symm ▸ fresh, inv.young⟩
  have order : (makeRecord p s.unit inst seqNum pc btb :: s.unit.predHist).Pairwise
      fun e d => d.seqNum < e.seqNum :=
    List.pairwise_cons.mpr ⟨fun d mem => own.symm ▸ newest d mem, inv.order⟩
  rw [log]
  cases ask with
  | false =>
    rw [if_neg Bool.false_ne_true] at path
    refine ⟨inv.path.congr (congrArg seqNums path) head, young, order, fun n mem => ?_, ?_⟩
    · have mem : n ∈ seqNums s.unit.ind.pathHist := path ▸ mem
      refine (inv.owned n mem).imp_right ?_
      rintro ⟨e, mem, same⟩
      exact ⟨e, List.mem_cons_of_mem _ mem, same⟩
    · refine List.forall_mem_cons.mpr ⟨fun indirect => ?_, fun e mem indirect => ?_⟩
      · exact absurd (was.symm.trans indirect) Bool.false_ne_true
      · exact path ▸ inv.placed e mem indirect
  | true =>
    refine ⟨inv.path.append nums path head, young, order, fun n mem => ?_, ?_⟩
    · have mem : n ∈ seqNums (s.unit.ind.pathHist ++ [_]) := path ▸ mem
      rw [seqNums, List.map_append] at mem
      rcases List.mem_append.mp mem with mem | last
      · refine (inv.owned n mem).imp_right ?_
        rintro ⟨e, mem, same⟩
        exact ⟨e, List.mem_cons_of_mem _ mem, same⟩
      · exact Or.inr ⟨_, List.mem_cons_self, own.trans (List.mem_singleton.mp last).symm⟩
    · refine List.forall_mem_cons.mpr ⟨fun _ => ?_, fun e mem indirect => ?_⟩
      · rw [own, ghr]
        exact ⟨_, _, [], path, rfl, Function.update_self _ _ _⟩
      · exact path ▸ (inv.placed e mem indirect).append _ (newest e mem).ne _

theorem Inv.step [NeZero N] {s s' : Traced PC σ η N} (inv : Inv prm s) {c : Driver.Call PC}
    (allowed : s.Allowed c) (stepped : s.step p prm c = some s') : Inv prm s' := by
  obtain ⟨unit, called, rfl⟩ := Option.map_eq_some_iff.mp stepped
  cases c with
  | predict =>
    cases called
    exact inv.predict simple has allowed.1 allowed.2
  | update doneSN =>
    cases called
    exact inv.update simple doneSN
  | squash =>
    cases called
    exact inv.squash simple has allowed
  | squashTo => exact Inv.squashTo simple has inv allowed called

/-- In every run the path is sorted and its head entry lies on it or just behind, and a target is
recorded at the entry of its own branch and at the place where that was looked up. -/
theorem trained_where_looked_up [NeZero N] {s : Traced PC σ η N} {dir : σ}
    (run : Runs.Leads (Traced.step p prm) Traced.Allowed (Traced.init prm p.isa dir) s) :
    (seqNums s.unit.ind.pathHist).Pairwise (· < ·)
      ∧ s.unit.ind.headHistEntry ≤ s.unit.ind.pathHist.length
      ∧ ∀ squashedSN corrTarget actuallyTaken rand e ind,
        s.Allowed (.squashTo squashedSN corrTarget actuallyTaken rand) →
        RecordsTarget p s.unit squashedSN actuallyTaken e ind →
        ∃ h at_, ind.recordPlace prm e.indirectHistory = some (h, at_) ∧ h.seqNum = squashedSN
          ∧ s.lookedUp squashedSN = some at_ := by
  have inv : Inv prm s :=
    run.invariant (init_inv p.isa dir) fun s c s' inv allowed stepped =>
      inv.step simple has allowed stepped
  refine ⟨inv.path.sorted, inv.path.head, fun squashedSN _ taken _ e ind allowed records => ?_⟩
  have squashed : Inv prm ⟨s.unit.squash p squashedSN, s.done, s.lookedUp⟩ :=
    inv.squash simple has allowed
  have bound : ∀ h ∈ (s.unit.squash p squashedSN).ind.pathHist, h.seqNum ≤ squashedSN := by
    rw [(squash_ind simple has squashedSN).1, squash_pathHist inv.path]
    exact fun h mem => of_decide_eq_true (List.mem_filter.mp mem).2
  obtain ⟨before, h, at_, split, own, rfl, log⟩ := squashed.recordPlace bound
    (List.mem_of_mem_head? records.front) records.own records.indirect
  have path := (corrected_eq simple has (s.unit.squash p squashedSN).ind e taken).1
  rw [← records.found] at path
  exact ⟨h, _, recordPlace_concat (path.trans split) _, own, log⟩

end Calls

def defaultParams : IndirectParams := ⟨true, true, 256, 2, 16, 3, 2, 13⟩

/-- A direction predictor that takes every branch. -/
def alwaysTaken : DirectionPredictor Addr Unit Unit where
  lookup := fun _ _ => (true, (), ())
  uncondBranch := fun _ _ => ((), ())
  btbUpdate := fun _ _ _ => ((), ())
  update := fun _ _ _ _ _ _ _ => ((), ())
  squash := fun _ _ => ()

def takenPredictors : Predictors Addr Unit Unit (SimpleIndirect Addr) (BitVec 32) :=
  ⟨BPredUnit.plainIsa, alwaysTaken, true, SimpleIndirect.indirect defaultParams BPredUnit.plainIsa⟩

def registerJump : StaticInst Addr := ⟨true, false, false, false, (· + 4)⟩

/-- A jump is predicted, and another one after it. -/
def jumpedTwice : Traced Addr Unit Unit 4 :=
  let s := Traced.init defaultParams BPredUnit.plainIsa ()
  let s := (s.step takenPredictors defaultParams (.predict registerJump 1 0x1000 none)).getD s
  (s.step takenPredictors defaultParams (.predict registerJump 2 0x1004 none)).getD s

/-- The older jump is found to go elsewhere. -/
theorem trained_where_looked_up_jump : ∃ e ind h at_,
    RecordsTarget takenPredictors jumpedTwice.unit 1 true e ind
      ∧ ind.recordPlace defaultParams e.indirectHistory = some (h, at_) ∧ h.seqNum = 1
      ∧ jumpedTwice.lookedUp 1 = some at_ := by
  have first : Runs.Leads (Traced.step takenPredictors defaultParams) Traced.Allowed
      (Traced.init defaultParams BPredUnit.plainIsa () : Traced Addr Unit Unit 4) _ :=
    .tail (.predict registerJump 1 0x1000 none) .refl ⟨by decide, by decide⟩ rfl
  have run : Runs.Leads (Traced.step takenPredictors defaultParams) Traced.Allowed
      (Traced.init defaultParams BPredUnit.plainIsa ()) jumpedTwice :=
    .tail (.predict registerJump 2 0x1004 none) first ⟨by decide, by decide⟩ rfl
  have records : RecordsTarget takenPredictors jumpedTwice.unit 1 true _ _ :=
    ⟨rfl, rfl, rfl, rfl, rfl⟩
  obtain ⟨h, at_, found⟩ := (trained_where_looked_up rfl rfl run).2.2 1 0x2000 true 0 _ _
    (Nat.zero_le 1) records
  exact ⟨_, _, h, at_, records, found⟩

end Gem5.Pred.SimpleIndirect
