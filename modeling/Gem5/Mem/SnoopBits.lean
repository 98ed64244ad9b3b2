import Gem5.Mem.SnoopFilter

/-!
# What the snoop filter knows

An entry that is missing means the same as one without requests and holders. What a call does is
said for this reading of the table, and the table is the only one for it without null entries.
-/

namespace Gem5.Mem.Snoop

open Past BitVec

variable {other : SlavePort} {i : SnoopItem} {selected : Selected}

variable {prm : Params} {sf sf' : SnoopFilter} {line : Nat} {port : SlavePort} {pkt : Packet}

namespace SnoopFilter

theorem mem_slavePorts (known : port ∈ prm.ports) (snoops : port.isSnooping = true) :
    port ∈ prm.slavePorts :=
  List.mem_filter.mpr ⟨known, snoops⟩

theorem localSlavePortIds_lt (known : port ∈ prm.ports) (snoops : port.isSnooping = true) :
    prm.localSlavePortIds port < 256 :=
  Nat.lt_of_lt_of_le (List.idxOf_lt_length_of_mem (mem_slavePorts known snoops)) prm.fits

theorem portToMask_bit (known : port ∈ prm.ports) (snoops : port.isSnooping = true)
    (otherKnown : other ∈ prm.ports) (otherSnoops : other.isSnooping = true) :
    (portToMask prm port).getLsbD (prm.localSlavePortIds other) = decide (port = other) := by
  have small := localSlavePortIds_lt otherKnown otherSnoops
  rw [portToMask, if_pos snoops]
  have numbered : prm.localSlavePortIds port = prm.localSlavePortIds other ↔ port = other :=
    List.idxOf_inj (mem_slavePorts known snoops)
  by_cases same : port = other
  · subst same
    simp [small]
  · grind

theorem bit_or_portToMask (known : port ∈ prm.ports) (otherKnown : other ∈ prm.ports)
    (otherSnoops : other.isSnooping = true) (snoops : port.isSnooping = true) (mask : SnoopMask) :
    (mask ||| portToMask prm port).getLsbD (prm.localSlavePortIds other)
      = (mask.getLsbD (prm.localSlavePortIds other) || decide (port = other)) := by
  rw [getLsbD_or, portToMask_bit known snoops otherKnown otherSnoops]

theorem bit_clear_portToMask (known : port ∈ prm.ports) (otherKnown : other ∈ prm.ports)
    (otherSnoops : other.isSnooping = true) (snoops : port.isSnooping = true) (mask : SnoopMask) :
    (mask &&& ~~~portToMask prm port).getLsbD (prm.localSlavePortIds other)
      = (mask.getLsbD (prm.localSlavePortIds other) && !decide (port = other)) := by
  have small := localSlavePortIds_lt otherKnown otherSnoops
  rw [getLsbD_and, getLsbD_not, portToMask_bit known snoops otherKnown otherSnoops]
  simp [small]

theorem or_portToMask_ne_zero (known : port ∈ prm.ports) (snoops : port.isSnooping = true)
    (mask : SnoopMask) : mask ||| portToMask prm port ≠ 0 := by
  intro null
  have bit := bit_or_portToMask known known snoops snoops mask
  rw [null] at bit
  simp at bit

def item (sf : SnoopFilter) (line : Nat) : SnoopItem :=
  (sf.cachedLocations.lookup line).getD ⟨0, 0⟩

/-- Every entry has a request or a holder. -/
def NoNull (sf : SnoopFilter) : Prop :=
  ∀ line item, sf.cachedLocations.lookup line = some item → item.requested ||| item.holder ≠ 0

theorem item_setItem (sf : SnoopFilter) (line : Nat) (i : SnoopItem) (l : Nat) :
    (sf.setItem line i).item l = if l = line then i else sf.item l := by
  rw [item, setItem]
  by_cases own : l = line
  · grind [Finmap.lookup_insert]
  · aesop

theorem or_eq_zero {a b : SnoopMask} : a ||| b = 0 ↔ a = 0 ∧ b = 0 := by
  constructor
  · grind
  · rintro ⟨rfl, rfl⟩
    rfl

theorem eraseIfNullEntry_lookup (sf : SnoopFilter) (line l : Nat) :
    (sf.eraseIfNullEntry line).cachedLocations.lookup l
      = if l = line ∧ (sf.item line).requested ||| (sf.item line).holder = 0 then none
        else sf.cachedLocations.lookup l := by
  rw [eraseIfNullEntry]
  cases found : sf.cachedLocations.lookup line with
  | none => grind
  | some i =>
    have same : sf.item line = i := by rw [item, found]; rfl
    dsimp only
    rw [same]
    by_cases null : i.requested ||| i.holder = 0
    · aesop
    · rw [if_neg null, if_neg fun both => null both.2]

theorem item_eraseIfNullEntry (sf : SnoopFilter) (line l : Nat) :
    (sf.eraseIfNullEntry line).item l = sf.item l := by
  rw [item, eraseIfNullEntry_lookup]
  split
  · next both =>
    cases eq : sf.item l with
    | mk r h => grind
  · rfl

theorem NoNull.eraseIfNullEntry (others : ∀ l i, l ≠ line → sf.cachedLocations.lookup l = some i →
    i.requested ||| i.holder ≠ 0) : NoNull (sf.eraseIfNullEntry line) := by
  intro l i found
  rw [eraseIfNullEntry_lookup] at found
  split at found
  · cases found
  · next kept =>
    by_cases own : l = line
    · grind [item]
    · exact others l i own found

theorem setItem_others (noNull : NoNull sf) (i : SnoopItem) {l : Nat} {j : SnoopItem}
    (other : l ≠ line) (found : (sf.setItem line i).cachedLocations.lookup l = some j) :
    j.requested ||| j.holder ≠ 0 := by
  rw [setItem, Finmap.lookup_insert_of_ne _ other] at found
  exact noNull l j found

theorem NoNull.setItem (noNull : NoNull sf) (some_ : i.requested ||| i.holder ≠ 0) :
    NoNull (sf.setItem line i) := by
  intro l j found
  by_cases own : l = line
  · grind [SnoopFilter.setItem, Finmap.lookup_insert]
  · exact setItem_others noNull i own found

theorem cachedLocations_ext (noNull : NoNull sf) (noNull' : NoNull sf')
    (same : ∀ l, sf'.item l = sf.item l) : sf'.cachedLocations = sf.cachedLocations := by
  refine Finmap.ext_lookup fun l => ?_
  have eq := same l
  rw [item, item] at eq
  cases found : sf.cachedLocations.lookup l with
  | none => aesop
  | some i =>
    cases found' : sf'.cachedLocations.lookup l with
    | none => aesop
    | some j => grind

theorem setItem_found (found : sf.cachedLocations.lookup line = some i) :
    (sf.setItem line i).cachedLocations = sf.cachedLocations := by
  refine Finmap.ext_lookup fun l => ?_
  rw [setItem]
  by_cases own : l = line
  · subst own
    rw [Finmap.lookup_insert, found]
  · rw [Finmap.lookup_insert_of_ne _ own]

theorem lookupRequest_cases (called : sf.lookupRequest prm pkt port = some (sf', selected)) :
    (allocates pkt port = false ∧ sf'.cachedLocations = sf.cachedLocations ∧
        sf'.reqLookupResult = none) ∨
      ∃ i, sf'.reqLookupResult = some (lineAddr prm pkt.addr pkt.isSecure) ∧
        sf'.retryItem = sf.item (lineAddr prm pkt.addr pkt.isSecure) ∧
        sf'.cachedLocations = (sf.setItem (lineAddr prm pkt.addr pkt.isSecure) i).cachedLocations ∧
        (if allocates pkt port then
          requestItem pkt (portToMask prm port) (sf.item (lineAddr prm pkt.addr pkt.isSecure)) = some i
        else i = sf.item (lineAddr prm pkt.addr pkt.isSecure)) := by
  rw [lookupRequest] at called
  generalize lineAddr prm pkt.addr pkt.isSecure = line at called ⊢
  dsimp only at called
  cases found : sf.cachedLocations.lookup line with
  | none =>
    have null : sf.item line = ⟨0, 0⟩ := by rw [item, found]; rfl
    rw [found] at called
    rw [null]
    cases alloc : allocates pkt port with
    | false => grind
    | true =>
      rw [alloc] at called
      right
      cases changed : requestItem pkt (portToMask prm port) ⟨0, 0⟩ with
      | none => grind
      | some i =>
        rw [Option.getD_none, changed] at called
        cases called
        refine ⟨i, rfl, rfl, ?_, rfl⟩
        exact Finmap.insert_insert _
  | some j =>
    have same : sf.item line = j := by rw [item, found]; rfl
    right
    cases alloc : allocates pkt port with
    | false => grind [setItem_found]
    | true => aesop

theorem item_congr (same : sf'.cachedLocations = sf.cachedLocations) (l : Nat) :
    sf'.item l = sf.item l := by
  rw [item, same, item]

theorem NoNull.congr (noNull : NoNull sf) (same : sf'.cachedLocations = sf.cachedLocations) :
    NoNull sf' := by
  rw [NoNull, same]
  exact noNull

/-- The line of a packet. -/
def lineOf (prm : Params) (pkt : Packet) : Nat := lineAddr prm pkt.addr pkt.isSecure

/-- A call that only concerns one line, and leaves no null entry. -/
structure Updates (line : Nat) (i : SnoopItem) (sf sf' : SnoopFilter) : Prop where
  noNull : NoNull sf'
  item : ∀ l, sf'.item l = if l = line then i else sf.item l

theorem Updates.erase (noNull : NoNull sf)
    (table : sf'.cachedLocations = (sf.setItem line i).cachedLocations) :
    Updates line i sf (sf'.eraseIfNullEntry line) := by
  refine ⟨NoNull.eraseIfNullEntry fun l j other found => ?_, fun l => ?_⟩
  · grind [setItem_others]
  · rw [item_eraseIfNullEntry, item_congr table, item_setItem]

theorem Updates.refl (noNull : NoNull sf) (line : Nat) : Updates line (sf.item line) sf sf := by
  refine ⟨noNull, fun l => ?_⟩
  split
  · next own => rw [own]
  · rfl

/-- What the table says of the line after a request. -/
def requestedItem (prm : Params) (sf : SnoopFilter) (pkt : Packet) (port : SlavePort) :
    Option SnoopItem :=
  if allocates pkt port then
    requestItem pkt (portToMask prm port) (sf.item (lineOf prm pkt))
  else some (sf.item (lineOf prm pkt))

/-- A request that is looked up and finished: it goes through, and a refused one leaves what was
there. -/
theorem finishRequest_updates (noNull : NoNull sf)
    (called : sf.lookupRequest prm pkt port = some (sf', selected)) (willRetry : Bool) :
    ∃ sf'' i, sf'.finishRequest prm willRetry pkt.addr pkt.isSecure = some sf'' ∧
      requestedItem prm sf pkt port = some i ∧
      Updates (lineOf prm pkt) (if willRetry then sf.item (lineOf prm pkt) else i) sf sf'' := by
  rcases lookupRequest_cases called with ⟨alloc, table, result⟩ | ⟨i, result, retry, table, changed⟩
  · refine ⟨sf', sf.item (lineOf prm pkt), ?_, ?_, ?_⟩
    · rw [finishRequest, result]
    · rw [requestedItem, alloc]
      rfl
    · rw [ite_self]
      refine ⟨noNull.congr table, fun l => ?_⟩
      exact (item_congr table l).trans ((Updates.refl noNull (lineOf prm pkt)).item l)
  · have requested : requestedItem prm sf pkt port = some i := by
      rw [requestedItem]
      split at changed
      · next alloc => rw [if_pos alloc]; exact changed
      · next alloc => rw [if_neg alloc, changed]; rfl
    cases willRetry with
    | false =>
      refine ⟨sf'.eraseIfNullEntry (lineOf prm pkt), i, ?_, requested, Updates.erase noNull table⟩
      rw [finishRequest, result]
      dsimp only
      rw [if_neg (fun differ => differ rfl)]
      rfl
    | true =>
      refine ⟨(sf'.setItem (lineOf prm pkt) (sf.item (lineOf prm pkt))).eraseIfNullEntry
        (lineOf prm pkt), i, ?_, requested, Updates.erase noNull ?_⟩
      · rw [finishRequest, result]
        dsimp only
        rw [if_neg (fun differ => differ rfl), retry]
        rfl
      · rw [setItem, table]
        exact Finmap.insert_insert _

theorem lookupSnoop_updates (noNull : NoNull sf)
    (called : sf.lookupSnoop prm pkt = some (sf', selected)) :
    ∃ i, i.requested = (sf.item (lineOf prm pkt)).requested ∧
      Updates (lineOf prm pkt) i sf sf' := by
  rw [lookupSnoop] at called
  dsimp only at called
  rw [← lineOf] at called
  cases found : sf.cachedLocations.lookup (lineOf prm pkt) with
  | none => grind [Updates.refl]
  | some j =>
    have same : sf.item (lineOf prm pkt) = j := by rw [item, found]; rfl
    rw [found] at called
    cases called
    rw [same]
    split
    · exact ⟨⟨j.requested, 0⟩, rfl, Updates.erase noNull rfl⟩
    · exact ⟨j, rfl, Updates.erase noNull (setItem_found found).symm⟩

theorem updateSnoopForward_updates (noNull : NoNull sf)
    (called : sf.updateSnoopForward prm pkt = some sf') :
    ∃ i, i.requested = (sf.item (lineOf prm pkt)).requested ∧
      Updates (lineOf prm pkt) i sf sf' := by
  rw [updateSnoopForward] at called
  dsimp only at called
  rw [← lineOf] at called
  cases found : sf.cachedLocations.lookup (lineOf prm pkt) with
  | none => grind [Updates.refl]
  | some j =>
    have same : sf.item (lineOf prm pkt) = j := by rw [item, found]; rfl
    rw [found] at called
    cases called
    rw [same]
    split
    · exact ⟨⟨j.requested, 0⟩, rfl, Updates.erase noNull rfl⟩
    · exact ⟨j, rfl, Updates.erase noNull (setItem_found found).symm⟩

/-- Whether a response concerns the filter. -/
def answers (pkt : Packet) (port : SlavePort) : Bool := ! pkt.isUncacheable && port.isSnooping

theorem updateSnoopResponse_updates (noNull : NoNull sf) {rspPort reqPort : SlavePort}
    (known : reqPort ∈ prm.ports)
    (called : sf.updateSnoopResponse prm pkt rspPort reqPort = some sf') :
    ∃ i, i.requested = (if answers pkt reqPort then
        (sf.item (lineOf prm pkt)).requested &&& ~~~portToMask prm reqPort
          else (sf.item (lineOf prm pkt)).requested) ∧
      Updates (lineOf prm pkt) i sf sf' := by
  rw [updateSnoopResponse] at called
  cases concerns : answers pkt reqPort with
  | false =>
    have skip : (pkt.isUncacheable || !reqPort.isSnooping) = true := by grind [answers]
    rw [if_pos skip] at called
    cases called
    exact ⟨_, rfl, Updates.refl noNull _⟩
  | true =>
    obtain ⟨cacheable, snoops⟩ := Bool.and_eq_true_iff.mp concerns
    have go : ¬(pkt.isUncacheable || !reqPort.isSnooping) = true := by grind
    rw [if_neg go] at called
    dsimp only at called
    split at called
    · cases called
    · split at called
      · cases called
      · cases called
        refine ⟨⟨(sf.item (lineOf prm pkt)).requested &&& ~~~portToMask prm reqPort,
          (if (!pkt.hasSharers) = true then 0 else (sf.item (lineOf prm pkt)).holder)
            ||| portToMask prm reqPort⟩, rfl, noNull.setItem fun null => ?_, item_setItem sf _ _⟩
        exact or_portToMask_ne_zero known snoops _ (or_eq_zero.mp null).2

theorem updateResponse_updates (noNull : NoNull sf) (known : port ∈ prm.ports)
    (called : sf.updateResponse prm pkt port = some sf') :
    ∃ i, i.requested = (if answers pkt port then
        (sf.item (lineOf prm pkt)).requested &&& ~~~portToMask prm port
          else (sf.item (lineOf prm pkt)).requested) ∧
      Updates (lineOf prm pkt) i sf sf' := by
  rw [updateResponse] at called
  cases concerns : answers pkt port with
  | false =>
    have skip : (pkt.isUncacheable || !port.isSnooping) = true := by grind [answers]
    rw [if_pos skip] at called
    cases called
    exact ⟨_, rfl, Updates.refl noNull _⟩
  | true =>
    obtain ⟨cacheable, snoops⟩ := Bool.and_eq_true_iff.mp concerns
    have go : ¬(pkt.isUncacheable || !port.isSnooping) = true := by grind
    rw [if_neg go] at called
    dsimp only at called
    rw [← lineOf] at called
    cases found : sf.cachedLocations.lookup (lineOf prm pkt) with
    | none =>
      have null : sf.item (lineOf prm pkt) = ⟨0, 0⟩ := by rw [item, found]; rfl
      rw [found] at called
      cases called
      refine ⟨sf.item (lineOf prm pkt), ?_, Updates.refl noNull _⟩
      rw [null, if_pos rfl]
      exact BitVec.zero_and.symm
    | some j =>
      have same : sf.item (lineOf prm pkt) = j := by rw [item, found]; rfl
      rw [found] at called
      dsimp only at called
      rw [same]
      split at called
      · cases called
      · split at called
        · cases called
          exact ⟨⟨j.requested &&& ~~~portToMask prm port, if pkt.isInvalidate = true then
            j.holder &&& ~~~portToMask prm port else j.holder⟩, rfl, Updates.erase noNull rfl⟩
        · cases called
          refine ⟨⟨j.requested &&& ~~~portToMask prm port, j.holder ||| portToMask prm port⟩, rfl,
            noNull.setItem fun null => ?_, item_setItem sf _ _⟩
          exact or_portToMask_ne_zero known snoops _ (or_eq_zero.mp null).2

end SnoopFilter

end Gem5.Mem.Snoop
