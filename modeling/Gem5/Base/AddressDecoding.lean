import Gem5.Base.AddrRangeSearch

/-!
# Address decoding

A lookup finds the entry that covers the address when the entry is cached, when it is the
first above the key of the address, or when only entries that merge with it lie between. For
ranges that do not overlap this fails for one kind of address only: the start of an
interleaved set whose own select value is at least 2.
-/

namespace Gem5.Base.AddrRangeMap

open AddrRange List BitVec

variable {V : Type} {prm : Params} {m m' : AddrRangeMap V}
  {cond : AddrRange → Except Panic Bool}

/-- The lookup returns an entry that covers the address, and `end()` only where none does. -/
def Exact (prm : Params) (m : AddrRangeMap V) (a : Addr) : Prop :=
  match m.contains prm a with
  | .error _ => False
  | .ok (some e, _) => e ∈ m.tree ∧ e.1.Covers a
  | .ok (none, _) => ∀ e ∈ m.tree, ¬ e.1.Covers a

/-- An entry within the reach of a lookup: cached, the first above the address, or with
nothing but entries that merge with it in between. -/
structure InReach (prm : Params) (m : AddrRangeMap V) (a : Addr) (e : AddrRange × V) : Prop where
  granular : e.1.Granular prm.overshift
  near : e ∈ m.cache ∨
    ((ofSize a 1).key < e.1.key ∧
      ∀ x ∈ m.tree, (ofSize a 1).key < x.1.key → e.1.key ≤ x.1.key) ∨
    (e.1.key ≤ (ofSize a 1).key ∧
      ∀ x ∈ m.tree, e.1.key < x.1.key → x.1.key ≤ (ofSize a 1).key →
        x.1.mergesWith e.1 = true)

/-- The test of a lookup as a total function. -/
def matching (prm : Params) (a : Addr) (s : AddrRange) : Bool :=
  decide (s.Covers a ∧ s.Granular prm.overshift)

theorem contains_eq (a : Addr) :
    m.contains prm a = m.find prm (ofSize a 1) fun s => .ok (matching prm a s) := by
  rw [contains]
  congr 1
  funext s
  exact isSubset_ofSize prm.overshift a s

theorem contains_total (a : Addr) : ∃ found m', m.contains prm a = .ok (found, m') := by
  rw [contains_eq, find]
  obtain ⟨hit, hhit⟩ := scanCache_total (matching prm a) [] m.cache
  rw [hhit]
  cases hit with
  | some => exact ⟨_, _, rfl⟩
  | none =>
    obtain ⟨found, hfound⟩ := search_total (m := m) (matching prm a) (ofSize a 1)
    rw [hfound]
    cases found with
    | some | none => exact ⟨_, _, rfl⟩

theorem matching_iff {a : Addr} {s : AddrRange} :
    (Except.ok (matching prm a s) : Except Panic Bool) = .ok true
      ↔ s.Covers a ∧ s.Granular prm.overshift := by
  simp [matching]

theorem not_matching {a : Addr} {s : AddrRange}
    (h : (Except.ok (matching prm a s) : Except Panic Bool) = .ok false) :
    ¬ (s.Covers a ∧ s.Granular prm.overshift) := by
  simpa [matching] using h

/-- A lookup is exact if and only if some covering entry is within its reach, where there is
a covering entry at all. -/
theorem exact_iff (h : m.Wellformed) (a : Addr) :
    Exact prm m a ↔ ((∃ e ∈ m.tree, e.1.Covers a) →
      ∃ e ∈ m.tree, e.1.Covers a ∧ InReach prm m a e) := by
  obtain ⟨found, m', hc⟩ : ∃ found m', m.contains prm a = .ok (found, m') := contains_total a
  have hf := hc
  rw [contains_eq] at hf
  rw [Exact, hc]
  rcases find_cases hf with ⟨it, rfl, hmem, hcond, -⟩ |
    ⟨hcache, ⟨it, rfl, hs, -⟩ | ⟨rfl, hs, -⟩⟩
  · obtain ⟨hcovers, hgranular⟩ := matching_iff.mp hcond
    have htree := h.cached it hmem
    exact iff_of_true ⟨htree, hcovers⟩
      fun _ => ⟨it, htree, hcovers, ⟨hgranular, Or.inl hmem⟩⟩
  · obtain ⟨htree, hcond, hnear⟩ := search_some h.sorted hs
    obtain ⟨hcovers, hgranular⟩ := matching_iff.mp hcond
    exact iff_of_true ⟨htree, hcovers⟩
      fun _ => ⟨it, htree, hcovers, ⟨hgranular, Or.inr hnear⟩⟩
  · obtain ⟨hnext, hwalk⟩ := search_none h.sorted hs
    have missed : ¬ ∃ e ∈ m.tree, e.1.Covers a ∧ InReach prm m a e := by
      rintro ⟨e, he, hcovers, hgranular, hin | ⟨hlt, hfirst⟩ | ⟨hle, hmerge⟩⟩
      · exact not_matching (hcache e hin) ⟨hcovers, hgranular⟩
      · have hmem : e ∈ m.above (ofSize a 1) := (mem_above h.sorted).mpr ⟨he, hlt⟩
        cases habove : m.above (ofSize a 1) with
        | nil => grind
        | cons next rest =>
          have hnextmem : next ∈ m.above (ofSize a 1) := by rw [habove]; exact List.mem_cons_self
          obtain ⟨hntree, hnlt⟩ := (mem_above h.sorted).mp hnextmem
          have hsorted := above_sorted h.sorted (ofSize a 1)
          rw [habove] at hmem hsorted
          rcases List.mem_cons.mp hmem with rfl | hrest
          · exact not_matching (hnext _ rest habove) ⟨hcovers, hgranular⟩
          · grind [rel_of_pairwise_cons]
      · exact not_matching (hwalk e he hle hmerge) ⟨hcovers, hgranular⟩
    constructor
    · grind
    · intro reach e he hcovers
      exact missed (reach ⟨e, he, hcovers⟩)

def Valid (m : AddrRangeMap V) : Prop := ∀ e ∈ m.tree, e.1.start ≤ e.1.stop

/-- Two ranges are disjoint, or different stripes of one set. -/
def Separate (r s : AddrRange) : Prop :=
  r.stop < s.start ∨ s.stop < r.start ∨
    (r.mergesWith s = true ∧ r.interleaved = true ∧ r.intlvMatch ≠ s.intlvMatch)

def Apart (m : AddrRangeMap V) : Prop :=
  ∀ e ∈ m.tree, ∀ x ∈ m.tree, e ≠ x → Separate e.1 x.1

/-- Every stripe of an interleaved set is there. -/
def Complete (m : AddrRangeMap V) : Prop :=
  ∀ e ∈ m.tree, e.1.interleaved = true → ∀ k, k < 2 ^ e.1.masks.length →
    ∃ x ∈ m.tree, x.1.mergesWith e.1 = true ∧ x.1.intlvMatch.toNat = k

/-- The address is the start of an interleaved set and its own select value is at least 2. -/
def LateStart (e : AddrRange) (a : Addr) : Prop :=
  e.interleaved = true ∧ e.start = a ∧ 2 ≤ e.intlvMatch.toNat

theorem merges_of_overlap (apart : m.Apart) {e x : AddrRange × V} (he : e ∈ m.tree)
    (hx : x ∈ m.tree) {a : Addr} (hea : e.1.start ≤ a) (hae : a ≤ e.1.stop)
    (hxa : x.1.start ≤ a) (hax : a ≤ x.1.stop) : x.1.mergesWith e.1 = true := by
  by_cases heq : x = e
  · rw [heq, mergesWith_iff]
    exact ⟨rfl, rfl, rfl⟩
  · rw [le_def] at hea hae hxa hax
    rcases apart x hx e he heq with h | h | h
    · rw [lt_def] at h
      omega
    · rw [lt_def] at h
      omega
    · exact h.1

theorem covers_unique (apart : m.Apart) {e x : AddrRange × V} (he : e ∈ m.tree)
    (hx : x ∈ m.tree) {a : Addr} (hea : e.1.Covers a) (hxa : x.1.Covers a) : x = e := by
  by_contra hne
  have hmerge := merges_of_overlap apart he hx hea.1 hea.2.1 hxa.1 hxa.2.1
  obtain ⟨hstart, hstop, hmasks⟩ := mergesWith_iff.mp hmerge
  rcases apart x hx e he hne with h | h | ⟨-, hinter, hmatch⟩
  · have h1 := hea.1
    have h2 := hxa.2.1
    rw [le_def] at h1 h2
    rw [lt_def] at h
    omega
  · have h1 := hea.2.1
    have h2 := hxa.1
    rw [le_def] at h1 h2
    rw [lt_def] at h
    omega
  · have hinter' : e.1.interleaved = true := by
      rw [interleaved, hmasks]
      exact hinter
    have hx' := hxa.2.2 hinter
    have he' := hea.2.2 hinter'
    simp only [AddrRange.contains, Bool.and_eq_true, beq_iff_eq] at hx' he'
    apply hmatch
    have hsel : x.1.intlvMatch.setWidth 32 = e.1.intlvMatch.setWidth 32 := by
      rw [← hx'.2, ← he'.2, hmasks]
    have hnat := congrArg BitVec.toNat hsel
    simp only [toNat_setWidth] at hnat
    apply eq_of_toNat_eq
    omega

theorem probe_key (a : Addr) : (ofSize a 1).key = toLex (a.toNat, 0) := by
  rfl

/-- Where ranges do not overlap, the entries between a covering entry below the probe and the
probe belong to its set. -/
theorem between_merges (apart : m.Apart) (valid : m.Valid) {e x : AddrRange × V} {a : Addr}
    (he : e ∈ m.tree) (hx : x ∈ m.tree) (hcovers : e.1.Covers a) (hlt : e.1.key < x.1.key)
    (hle : x.1.key ≤ (ofSize a 1).key) : x.1.mergesWith e.1 = true := by
  have h1 := key_start_le hlt.le
  have h2 := key_start_le hle
  have h3 := hcovers.2.1
  refine merges_of_overlap apart he hx (a := x.1.start) ?_ ?_ ?_ (valid x hx)
  · rw [le_def]
    exact h1
  · rw [le_def]
    exact h2.trans h3
  · rw [le_def]

theorem start_of_above {e : AddrRange × V} {a : Addr} (hcovers : e.1.Covers a)
    (hlt : (ofSize a 1).key < e.1.key) : e.1.start = a ∧ 1 ≤ e.1.intlvMatch.toNat := by
  have h1 := hcovers.1
  rw [le_def] at h1
  rw [probe_key, AddrRange.key, Prod.Lex.toLex_lt_toLex] at hlt
  rcases hlt with hlt | ⟨heq, hlt⟩
  · have hlt' : a.toNat < e.1.start.toNat := hlt
    omega
  · exact ⟨(eq_of_toNat_eq heq).symm, hlt⟩

theorem inReach_iff (valid : m.Valid) (apart : m.Apart) (complete : m.Complete) {e : AddrRange × V}
    {a : Addr} (he : e ∈ m.tree) (hcovers : e.1.Covers a) :
    InReach prm m a e ↔ e.1.Granular prm.overshift ∧ (LateStart e.1 a → e ∈ m.cache) := by
  constructor
  · rintro ⟨hgranular, hin | ⟨hlt, hfirst⟩ | ⟨hle, -⟩⟩
    · exact ⟨hgranular, fun _ => hin⟩
    · refine ⟨hgranular, fun late => ?_⟩
      obtain ⟨hinter, hstart, hmatch⟩ := late
      have hone : 1 < 2 ^ e.1.masks.length := by
        refine Nat.one_lt_two_pow ?_
        intro hzero
        rw [length_eq_zero_iff] at hzero
        simp [interleaved, hzero] at hinter
      obtain ⟨x, hx, hmerge, hxmatch⟩ := complete e he hinter 1 hone
      have hxstart : x.1.start = a := ((mergesWith_iff.mp hmerge).1.symm).trans hstart
      have hprobe : (ofSize a 1).key < x.1.key := by
        rw [probe_key, AddrRange.key, Prod.Lex.toLex_lt_toLex]
        exact Or.inr ⟨by rw [hxstart], by rw [hxmatch]; exact Nat.one_pos⟩
      have hex := hfirst x hx hprobe
      rw [AddrRange.key, AddrRange.key, Prod.Lex.toLex_le_toLex, hstart, hxstart, hxmatch] at hex
      rcases hex with hex | ⟨-, hex⟩
      · exact absurd hex (lt_irrefl _)
      · omega
    · refine ⟨hgranular, fun late => ?_⟩
      obtain ⟨-, hstart, hmatch⟩ := late
      rw [probe_key, AddrRange.key, Prod.Lex.toLex_le_toLex, hstart] at hle
      rcases hle with hle | ⟨-, hle⟩
      · exact absurd hle (lt_irrefl _)
      · omega
  · rintro ⟨hgranular, hlate⟩
    refine ⟨hgranular, ?_⟩
    by_cases hle : e.1.key ≤ (ofSize a 1).key
    · right; right
      exact ⟨hle, fun x hx hlt hxle => between_merges apart valid he hx hcovers hlt hxle⟩
    · have hlt := not_le.mp hle
      obtain ⟨hstart, hmatch⟩ := start_of_above hcovers hlt
      by_cases late : LateStart e.1 a
      · exact Or.inl (hlate late)
      · right; left
        refine ⟨hlt, fun x hx hxlt => ?_⟩
        rw [probe_key, AddrRange.key, Prod.Lex.toLex_lt_toLex] at hxlt
        rw [AddrRange.key, AddrRange.key, Prod.Lex.toLex_le_toLex, hstart]
        rcases hxlt with hxlt | ⟨hxstart, hxmatch⟩
        · exact Or.inl hxlt
        · right
          refine ⟨hxstart, ?_⟩
          have hxs : x.1.start = a := (eq_of_toNat_eq hxstart).symm
          by_cases heq : x = e
          · rw [heq]
          · -- another entry that starts at the address is another stripe of the set
            have hxa : a ≤ x.1.stop := hxs ▸ valid x hx
            have hsame := merges_of_overlap apart he hx hcovers.1 hcovers.2.1
              (BitVec.le_def.mpr (le_of_eq (congrArg BitVec.toNat hxs))) hxa
            have hinter : e.1.interleaved = true := by
              rcases apart x hx e he heq with hd | hd | ⟨-, hd, -⟩
              · grind
              · have := hcovers.2.1
                rw [hxs, lt_def] at hd
                rw [le_def] at this
                omega
              · rw [interleaved, (mergesWith_iff.mp hsame).2.2]
                exact hd
            by_contra hgt
            exact late ⟨hinter, hstart, by omega⟩

theorem separate_of_intersects {r s : AddrRange} (big : s.size ≠ 1)
    (h : r.intersects s = .ok false) : Separate r s := by
  rw [intersects] at h
  split at h
  · rename_i hd
    rcases hd with hd | hd
    · exact Or.inr (Or.inl hd)
    · exact Or.inl hd
  · split at h
    · simp at h
    · rename_i hplain
      rw [if_neg (by simpa using big)] at h
      split at h
      · rename_i hmerge
        have hmatch : r.intlvMatch ≠ s.intlvMatch := by simpa using h
        refine Or.inr (Or.inr ⟨hmerge, ?_, hmatch⟩)
        have hmasks := (mergesWith_iff.mp hmerge).2.2
        have hsame : s.interleaved = r.interleaved := by rw [interleaved, interleaved, hmasks]
        rw [hsame] at hplain
        simpa using hplain
      · cases h

theorem Separate.symm {r s : AddrRange} (h : Separate r s) : Separate s r := by
  rcases h with h | h | ⟨hm, hi, hne⟩
  · exact Or.inr (Or.inl h)
  · exact Or.inl h
  · refine Or.inr (Or.inr ⟨mergesWith_symm hm, ?_, hne.symm⟩)
    rw [interleaved, (mergesWith_iff.mp hm).2.2]
    exact hi

/-- What is separate from a range whose set another shares is separate from the other, if
it does not have the same match value. -/
theorem Separate.merge {r s t : AddrRange} (h : Separate r s) (hm : r.mergesWith t = true)
    (hne : t.mergesWith s = true → t.intlvMatch ≠ s.intlvMatch) : Separate t s := by
  obtain ⟨hstart, hstop, hmasks⟩ := mergesWith_iff.mp hm
  rcases h with h | h | ⟨hms, hi, -⟩
  · exact Or.inl (hstop ▸ h)
  · exact Or.inr (Or.inl (hstart ▸ h))
  · have hts := mergesWith_trans (mergesWith_symm hm) hms
    refine Or.inr (Or.inr ⟨hts, ?_, hne hts⟩)
    rw [interleaved, hmasks]
    exact hi

/-- Every range of the map is valid and has more than one address. -/
def Ordinary (r : AddrRange) : Prop := r.start ≤ r.stop ∧ r.size ≠ 1

theorem separate_of_search (h : m.Wellformed) (apart : m.Apart)
    (ordinary : ∀ e ∈ m.tree, Ordinary e.1) {r : AddrRange}
    (hs : m.search r r.intersects = .ok none) {e : AddrRange × V} (he : e ∈ m.tree) :
    Separate r e.1 := by
  obtain ⟨hnext, hwalk⟩ := search_none h.sorted hs
  have sameKey {x y : AddrRange} (hlt : x.key < y.key) (hm : x.start = y.start) :
      x.intlvMatch ≠ y.intlvMatch := by
    intro hmatch
    rw [AddrRange.key, AddrRange.key, hm, hmatch] at hlt
    exact lt_irrefl _ hlt
  by_cases hle : e.1.key ≤ r.key
  · -- the entry nearest below the range separates it from those further below
    by_cases chain : ∀ x ∈ m.tree, e.1.key < x.1.key → x.1.key ≤ r.key →
        x.1.mergesWith e.1 = true
    · exact separate_of_intersects (ordinary e he).2 (hwalk e he hle chain)
    · push Not at chain
      obtain ⟨x, hx, hex, hxr, hnot⟩ := chain
      have hne : e ≠ x := by grind
      have h1 := key_start_le hex.le
      have h2 := key_start_le hxr
      have hxv := (ordinary x hx).1
      rw [le_def] at hxv
      rcases apart e he x hx hne with hd | hd | ⟨hd, -, -⟩
      · rw [lt_def] at hd
        right; left
        rw [lt_def]
        omega
      · grind [lt_def]
      · exact absurd (mergesWith_symm hd) hnot
  · have hlt := not_le.mp hle
    have hemem : e ∈ m.above r := (mem_above h.sorted).mpr ⟨he, hlt⟩
    cases habove : m.above r with
    | nil =>
      rw [habove] at hemem
      simp at hemem
    | cons next rest =>
      have hnmem : next ∈ m.above r := by rw [habove]; exact List.mem_cons_self
      obtain ⟨hn, hrn⟩ := (mem_above h.sorted).mp hnmem
      have hsep := separate_of_intersects (ordinary next hn).2 (hnext next rest habove)
      have hsorted := above_sorted h.sorted r
      rw [habove] at hemem hsorted
      rcases List.mem_cons.mp hemem with rfl | hrest
      · exact hsep
      · have hne : next.1.key < e.1.key := rel_of_pairwise_cons hsorted hrest
        have h1 := key_start_le hrn.le
        have h2 := key_start_le hne.le
        have hnv := (ordinary next hn).1
        rw [le_def] at hnv
        have hdiff : next ≠ e := by grind
        rcases hsep with hd | hd | ⟨hm, -, -⟩
        · left
          rw [lt_def] at hd ⊢
          omega
        · rw [lt_def] at hd
          omega
        · refine Separate.merge (apart next hn e he hdiff) (mergesWith_symm hm) fun hre => ?_
          exact sameKey hlt (mergesWith_iff.mp hre).1.symm

theorem Reachable.apart (h : Reachable prm m) (ordinary : ∀ e ∈ m.tree, Ordinary e.1) :
    m.Apart := by
  induction h with
  | empty => simp [Apart]
  | @insert m m' accepted r d hr hins ih =>
    obtain ⟨found, m₁, hf, hout⟩ := insert_cases hins
    obtain ⟨hw, htree⟩ := hr.wellformed.find hf
    rcases hout with ⟨-, rfl⟩ | ⟨-, rfl, rfl⟩
    · grind [Apart]
    · dsimp only at ordinary
      rw [htree] at ordinary
      have old : ∀ e ∈ m.tree, Ordinary e.1 :=
        fun e he => ordinary e (mem_treeInsert_of_mem he)
      have hs : m.search r r.intersects = .ok none := by grind [find_cases]
      intro e he x hx hne
      rw [htree] at he hx
      have new (y : AddrRange × V) (hy : y ∈ m.tree) : Separate r y.1 :=
        separate_of_search hr.wellformed (ih old) old hs hy
      rcases mem_treeInsert he with rfl | he'
      · grind [mem_treeInsert]
      · rcases mem_treeInsert hx with rfl | hx'
        · exact (new e he').symm
        · exact ih old e he' x hx' hne
  | contains a hr hc ih =>
    obtain ⟨-, htree⟩ := hr.wellformed.find hc
    rw [htree] at ordinary
    rw [Apart, htree]
    exact ih ordinary

/-- A lookup is exact if and only if a covering entry is within reach; for complete sets of
valid ranges that do not overlap, unless the address is a late start that is not cached; and
insertion lets ordinary ranges in only if they do not overlap. -/
theorem lookup_exact_iff (h : Reachable prm m) (a : Addr) :
    (Exact prm m a ↔ ((∃ e ∈ m.tree, e.1.Covers a) →
      ∃ e ∈ m.tree, e.1.Covers a ∧ InReach prm m a e)) ∧
    (m.Valid → m.Apart → m.Complete →
      (Exact prm m a ↔ ∀ e ∈ m.tree, e.1.Covers a →
        e.1.Granular prm.overshift ∧ (LateStart e.1 a → e ∈ m.cache))) ∧
    ((∀ e ∈ m.tree, Ordinary e.1) → m.Valid ∧ m.Apart) := by
  refine ⟨exact_iff h.wellformed a, fun valid apart complete => ?_, fun ordinary => ?_⟩
  · rw [exact_iff h.wellformed a]
    constructor
    · intro reach e he hcovers
      obtain ⟨x, hx, hxcovers, hreach⟩ := reach ⟨e, he, hcovers⟩
      have hxe := covers_unique apart he hx hcovers hxcovers
      subst hxe
      exact (inReach_iff valid apart complete hx hcovers).mp hreach
    · rintro all ⟨e, he, hcovers⟩
      exact ⟨e, he, hcovers, (inReach_iff valid apart complete he hcovers).mpr
        (all e he hcovers)⟩
  · exact ⟨fun e he => (ordinary e he).1, h.apart ordinary⟩

/-- A stripe of the four-way set over the second page of 4 KiB, hashed with bit 12. -/
def stripe (k : Nat) : AddrRange :=
  ⟨0x1000, 0x1FFF, [0x40, 0x1080], BitVec.ofNat 8 k⟩

def uncached : Params := ⟨0, 1⟩

def fourStripes : AddrRangeMap Nat :=
  ⟨[(stripe 0, 0), (stripe 1, 1), (stripe 2, 2), (stripe 3, 3)], []⟩

theorem fourStripes_reachable : Reachable uncached fourStripes := by
  have one : (⟨[], []⟩ : AddrRangeMap Nat).insert uncached (stripe 0) 0
      = .ok (true, ⟨[(stripe 0, 0)], []⟩) := rfl
  have two : (⟨[(stripe 0, 0)], []⟩ : AddrRangeMap Nat).insert uncached (stripe 1) 1
      = .ok (true, ⟨[(stripe 0, 0), (stripe 1, 1)], []⟩) := rfl
  have three : (⟨[(stripe 0, 0), (stripe 1, 1)], []⟩ : AddrRangeMap Nat).insert uncached
      (stripe 2) 2 = .ok (true, ⟨[(stripe 0, 0), (stripe 1, 1), (stripe 2, 2)], []⟩) := rfl
  have four : (⟨[(stripe 0, 0), (stripe 1, 1), (stripe 2, 2)], []⟩ : AddrRangeMap Nat).insert
      uncached (stripe 3) 3 = .ok (true, fourStripes) := rfl
  exact .insert _ _ (.insert _ _ (.insert _ _ (.insert _ _ .empty one) two) three) four

theorem lookup_exact_iff_fourStripes :
    (Exact uncached fourStripes 0x1000 ↔ ((∃ e ∈ fourStripes.tree, e.1.Covers 0x1000) →
      ∃ e ∈ fourStripes.tree, e.1.Covers 0x1000 ∧ InReach uncached fourStripes 0x1000 e)) :=
  (lookup_exact_iff fourStripes_reachable 0x1000).1

/-- The set of four covers its own start address with its third stripe, and the lookup ends
at `end()`. -/
theorem set_start_missed :
    ¬ ∀ (prm : Params) (m : AddrRangeMap Nat), Reachable prm m → m.Valid → m.Complete →
      ∀ a, Exact prm m a := by
  intro claim
  have valid : ∀ e ∈ fourStripes.tree, e.1.start ≤ e.1.stop := by decide
  have complete : ∀ e ∈ fourStripes.tree, e.1.interleaved = true →
      ∀ k, k < 2 ^ e.1.masks.length →
        ∃ x ∈ fourStripes.tree, x.1.mergesWith e.1 = true ∧ x.1.intlvMatch.toNat = k := by
    decide
  have exact := claim uncached fourStripes fourStripes_reachable valid complete 0x1000
  have missed : fourStripes.contains uncached 0x1000 = .ok (none, fourStripes) := rfl
  rw [Exact, missed] at exact
  exact exact (stripe 2, 2) (by decide) (by decide +kernel)

end Gem5.Base.AddrRangeMap
