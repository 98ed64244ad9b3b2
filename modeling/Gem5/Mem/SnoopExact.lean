import Gem5.Mem.SnoopBits

/-!
# The requests in flight

The request bits of a line are the accepted requests of caches that were not answered since, and
a refused request leaves the table as it was.
-/

namespace Gem5.Mem.Snoop

open Past

variable {i : SnoopItem} {past : List (Call × Option Selected)}

variable {prm : Params} {sf sf' : SnoopFilter} {line : Nat} {port : SlavePort} {pkt : Packet}

namespace SnoopFilter

/-- A request that the filter keeps until it is answered. -/
def tracked (pkt : Packet) (port : SlavePort) : Bool :=
  allocates pkt port && pkt.needsResponse && ! pkt.cacheResponding

/-- The port's request for the line goes ahead. -/
def Accepted (prm : Params) (line : Nat) (port : SlavePort) : Call × Option Selected → Prop
  | (.request pkt p willRetry, _) =>
    p = port ∧ lineOf prm pkt = line ∧ tracked pkt p = true ∧ willRetry = false
  | _ => False

/-- The port's request for the line is answered, from below or by another cache. -/
def Answered (prm : Params) (line : Nat) (port : SlavePort) : Call × Option Selected → Prop
  | (.updateResponse pkt p, _) => p = port ∧ lineOf prm pkt = line ∧ answers pkt p = true
  | (.updateSnoopResponse pkt _ p, _) => p = port ∧ lineOf prm pkt = line ∧ answers pkt p = true
  | _ => False

/-- The port's bit in the requests of the line. -/
def requestBit (prm : Params) (sf : SnoopFilter) (line : Nat) (port : SlavePort) : Bool :=
  (sf.item line).requested.getLsbD (prm.localSlavePortIds port)

theorem Updates.requestBit_eq {l : Nat} (updates : Updates line i sf sf') :
    requestBit prm sf' l port
      = if l = line then i.requested.getLsbD (prm.localSlavePortIds port)
        else requestBit prm sf l port := by
  rw [requestBit, updates.item]
  split <;> rfl

theorem Updates.requestBit_same (updates : Updates line i sf sf')
    (same : i.requested = (sf.item line).requested) (l : Nat) :
    requestBit prm sf' l port = requestBit prm sf l port := by
  rw [updates.requestBit_eq]
  split
  · next own => rw [own, same, requestBit]
  · rfl

theorem requestItem_requested {mask : SnoopMask} {old : SnoopItem}
    (changed : requestItem pkt mask old = some i) :
    i.requested = if pkt.needsResponse && ! pkt.cacheResponding then old.requested ||| mask
      else old.requested := by
  rw [requestItem] at changed
  cases needs : pkt.needsResponse with
  | true => aesop
  | false => grind

theorem requestedItem_requested (changed : requestedItem prm sf pkt port = some i) :
    i.requested = if tracked pkt port then
        (sf.item (lineOf prm pkt)).requested ||| portToMask prm port
      else (sf.item (lineOf prm pkt)).requested := by
  rw [requestedItem] at changed
  rw [tracked, Bool.and_assoc]
  cases alloc : allocates pkt port with
  | false => grind
  | true =>
    rw [alloc, if_pos rfl] at changed
    exact requestItem_requested changed

theorem snoops_of_tracked (tracks : tracked pkt port = true) : port.isSnooping = true := by
  simp only [tracked, allocates, Bool.and_eq_true] at tracks
  exact tracks.1.1.1.2

theorem snoops_of_answers (concerns : answers pkt port = true) : port.isSnooping = true :=
  (Bool.and_eq_true_iff.mp concerns).2

theorem requestBit_answer {p : SlavePort} (known : p ∈ prm.ports) (portKnown : port ∈ prm.ports)
    (snoops : port.isSnooping = true) (updates : Updates (lineOf prm pkt) i sf sf') (cleared :
    i.requested = if answers pkt p then (sf.item (lineOf prm pkt)).requested &&& ~~~portToMask prm p
    else (sf.item (lineOf prm pkt)).requested) :
    requestBit prm sf' line port = true ↔
      ¬(p = port ∧ lineOf prm pkt = line ∧ answers pkt p = true) ∧
        requestBit prm sf line port = true := by
  cases concerns : answers pkt p with
  | false =>
    rw [concerns] at cleared
    rw [updates.requestBit_same cleared]
    simp
  | true =>
    rw [concerns, if_pos rfl] at cleared
    rw [updates.requestBit_eq]
    by_cases own : line = lineOf prm pkt
    · subst own
      rw [if_pos rfl, cleared, bit_clear_portToMask known portKnown snoops
        (snoops_of_answers concerns), requestBit]
      by_cases same : p = port <;> simp [same]
    · rw [if_neg own]
      simp [Ne.symm own]

/-- What is known after a run: no null entries, and the bits say which requests are in flight. -/
structure Exact (prm : Params) (sf : SnoopFilter) (past : List (Call × Option Selected)) : Prop where
  noNull : NoNull sf
  bits : ∀ port ∈ prm.ports, port.isSnooping = true → ∀ line,
    requestBit prm sf line port = true ↔ Since (Accepted prm line port) (Answered prm line port) past

theorem Exact.new (prm : Params) : Exact prm new [] :=
  ⟨fun _ _ found => (by cases found),
    fun _ _ _ _ => iff_of_false (by simp [requestBit, item, SnoopFilter.new]) id⟩

theorem Exact.same (kept : Exact prm sf past) (updates : Updates line i sf sf')
    (same : i.requested = (sf.item line).requested) {e : Call × Option Selected}
    (accepts : ∀ l p, ¬Accepted prm l p e) (answers : ∀ l p, ¬Answered prm l p e) :
    Exact prm sf' (e :: past) := by
  refine ⟨updates.noNull, fun p known snoops l => ?_⟩
  rw [updates.requestBit_same same, kept.bits p known snoops l]
  constructor
  · intro since
    exact .inr ⟨answers l p, since⟩
  · rintro (accepted | ⟨-, since⟩)
    · exact absurd accepted (accepts l p)
    · exact since

theorem Exact.answer {past : List (Call × Option Selected)} (kept : Exact prm sf past)
    {i : SnoopItem} {p : SlavePort} (known : p ∈ prm.ports)
    (updates : Updates (lineOf prm pkt) i sf sf') (cleared : i.requested = if answers pkt p then
    (sf.item (lineOf prm pkt)).requested &&& ~~~portToMask prm p else (sf.item (lineOf prm
    pkt)).requested) {e : Call × Option Selected} (accepts : ∀ l q, ¬Accepted prm l q e)
    (answered : ∀ l q, Answered prm l q e ↔ p = q ∧ lineOf prm pkt = l ∧ answers pkt p = true) :
    Exact prm sf' (e :: past) := by
  refine ⟨updates.noNull, fun q qKnown snoops l => ?_⟩
  rw [requestBit_answer known qKnown snoops updates cleared, kept.bits q qKnown snoops l,
    ← answered l q]
  constructor
  · exact .inr
  · rintro (accepted | both)
    · exact absurd accepted (accepts l q)
    · exact both

theorem Exact.accept (kept : Exact prm sf past) (known : port ∈ prm.ports)
    (changed : requestedItem prm sf pkt port = some i) (updates : Updates (lineOf prm pkt) i sf sf')
    (selected : Option Selected) : Exact prm sf' ((.request pkt port false, selected) :: past) := by
  refine ⟨updates.noNull, fun q qKnown snoops l => ?_⟩
  have requested := requestedItem_requested changed
  have bit : requestBit prm sf' l q = true ↔
      (port = q ∧ lineOf prm pkt = l ∧ tracked pkt port = true ∧ false = false) ∨
        requestBit prm sf l q = true := by
    cases tracks : tracked pkt port with
    | false =>
      rw [tracks] at requested
      rw [updates.requestBit_same requested]
      simp
    | true =>
      rw [tracks, if_pos rfl] at requested
      rw [updates.requestBit_eq]
      by_cases own : l = lineOf prm pkt
      · subst own
        rw [if_pos rfl, requested, bit_or_portToMask known qKnown snoops (snoops_of_tracked tracks),
          requestBit]
        by_cases same : port = q <;> simp [same]
      · rw [if_neg own]
        simp [Ne.symm own]
  rw [bit, kept.bits q qKnown snoops l]
  exact or_congr Iff.rfl ⟨fun since => ⟨id, since⟩, fun both => both.2⟩

theorem call_exact (kept : Exact prm sf past) {c : Call} (known : Known prm c) {o : Option Selected}
    (called : sf.call prm c = some (sf', o)) : Exact prm sf' ((c, o) :: past) := by
  cases c with
  | request pkt port willRetry =>
    obtain ⟨⟨_, selected⟩, requested, eq⟩ := Option.map_eq_some_iff.mp called
    cases eq
    rw [request] at requested
    cases looked : sf.lookupRequest prm pkt port with
    | none => grind
    | some result =>
      rw [looked] at requested
      obtain ⟨sf₂, finished, eq⟩ := Option.map_eq_some_iff.mp requested
      cases eq
      obtain ⟨sf₃, i, finished', changed, updates⟩ :=
        finishRequest_updates kept.noNull looked willRetry
      rw [finished] at finished'
      cases finished'
      cases willRetry with
      | false => exact kept.accept known changed updates _
      | true =>
        refine kept.same updates rfl (fun _ _ accepted => ?_) fun _ _ => id
        exact absurd accepted.2.2.2 (by decide)
  | lookupSnoop =>
    obtain ⟨⟨_, selected⟩, looked, eq⟩ := Option.map_eq_some_iff.mp called
    cases eq
    obtain ⟨i, same, updates⟩ := lookupSnoop_updates kept.noNull looked
    exact kept.same updates same (fun _ _ => id) fun _ _ => id
  | updateSnoopResponse =>
    obtain ⟨_, updated, eq⟩ := Option.map_eq_some_iff.mp called
    cases eq
    obtain ⟨i, cleared, updates⟩ := updateSnoopResponse_updates kept.noNull known.2 updated
    exact kept.answer known.2 updates cleared (fun _ _ => id) fun _ _ => Iff.rfl
  | updateSnoopForward =>
    obtain ⟨_, updated, eq⟩ := Option.map_eq_some_iff.mp called
    cases eq
    obtain ⟨i, same, updates⟩ := updateSnoopForward_updates kept.noNull updated
    exact kept.same updates same (fun _ _ => id) fun _ _ => id
  | updateResponse =>
    obtain ⟨_, updated, eq⟩ := Option.map_eq_some_iff.mp called
    cases eq
    obtain ⟨i, cleared, updates⟩ := updateResponse_updates kept.noNull known updated
    exact kept.answer known updates cleared (fun _ _ => id) fun _ _ => Iff.rfl

theorem retry_restores (noNull : NoNull sf) {selected : Selected}
    (looked : sf.lookupRequest prm pkt port = some (sf', selected)) :
    ∃ sf'', sf'.finishRequest prm true pkt.addr pkt.isSecure = some sf'' ∧
      sf''.cachedLocations = sf.cachedLocations := by
  obtain ⟨sf'', i, finished, -, updates⟩ := finishRequest_updates noNull looked true
  refine ⟨sf'', finished, cachedLocations_ext noNull updates.noNull fun l => ?_⟩
  rw [updates.item, if_pos rfl]
  split
  · next own => rw [own]
  · rfl

/-- After every run the bookkeeping is exact, and a refused request is undone. -/
theorem run_exact {past : List (Call × Option Selected)}
    (run : Logged (call prm) (fun _ c => Known prm c) new sf past) :
    (∀ line i, sf.cachedLocations.lookup line = some i → i.requested ||| i.holder ≠ 0) ∧
      (∀ port ∈ prm.ports, port.isSnooping = true → ∀ line,
        requestBit prm sf line port = true ↔
          Since (Accepted prm line port) (Answered prm line port) past) ∧
      ∀ pkt port sf' selected, sf.lookupRequest prm pkt port = some (sf', selected) →
        ∃ sf'', sf'.finishRequest prm true pkt.addr pkt.isSecure = some sf'' ∧
          sf''.cachedLocations = sf.cachedLocations := by
  have kept : Exact prm sf past :=
    run.invariant (Exact.new prm) fun _ _ _ _ _ kept known called => call_exact kept known called
  exact ⟨kept.noNull, kept.bits, fun _ _ _ _ looked => retry_restores kept.noNull looked⟩

/-- Two snooping ports and lines of 64 bytes. -/
def pair : Params where
  ports := [⟨0, true⟩, ⟨1, true⟩]
  linesize := 64
  lookupLatency := 1
  maxEntryCount := 8
  distinct := by decide
  fits := by decide

/-- A cache reads a shared copy. -/
def readShared : Packet := ⟨0x80, false, false, false, true, true, false, false, false, false⟩

def pairRequested : SnoopFilter :=
  ((new.call pair (.request readShared ⟨0, true⟩ false)).getD (new, none)).1

theorem run_exact_pair :
    requestBit pair pairRequested 0x80 ⟨0, true⟩ = true ∧
      requestBit pair pairRequested 0x80 ⟨1, true⟩ = false := by
  have run : Logged (call pair) (fun _ c => Known pair c) new pairRequested
      [(.request readShared ⟨0, true⟩ false, some ([], 1))] :=
    .log .start List.mem_cons_self rfl
  have bits := (run_exact run).2.1
  refine ⟨(bits ⟨0, true⟩ (by decide) rfl 0x80).mpr (.inl ⟨rfl, rfl, rfl, rfl⟩), ?_⟩
  rw [← Bool.not_eq_true, bits ⟨1, true⟩ (by decide) rfl 0x80]
  rintro (accepted | ⟨-, none⟩)
  · exact absurd accepted.1 (by decide)
  · exact none

end SnoopFilter

end Gem5.Mem.Snoop
