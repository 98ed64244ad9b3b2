import Gem5.Sim.EventQueue

/-!
# The bins behind the pointers

A queue holds a sorted list of stacks: the `nextBin` pointer of the top of each bin leads to
the top of the next, and the pointers below the top are marked stale. Each operation on the
pointers is the operation of that name on the list of stacks.
-/

namespace Gem5.Sim.EventQueue

open Bins List

variable {ev ev' : EventId → Event} {last last' : Option EventId}

/-- The top of the first bin. -/
def topOf (last : Option EventId) : List (Bin EventId) → Option EventId
  | [] => last
  | b :: _ => some b.top

/-- The stack below an event of a bin. -/
def InBin (ev : EventId → Event) : EventId → List EventId → Prop
  | e, [] => (ev e).nextInBin = none
  | e, f :: rest =>
    (ev e).nextInBin = some f ∧ (ev f).nextBinStale = true ∧ InBin ev f rest

/-- The pointers form these bins and end at `last`. -/
def Linked (ev : EventId → Event) (last : Option EventId) : List (Bin EventId) → Prop
  | [] => True
  | b :: bins =>
    InBin ev b.top b.rest ∧ (ev b.top).nextBinStale = false ∧
      (ev b.top).nextBin = topOf last bins ∧ Linked ev last bins

theorem topOf_append (pre post : List (Bin EventId)) :
    topOf last (pre ++ post) = topOf (topOf last post) pre := by
  cases pre <;> rfl

theorem linked_append (pre post : List (Bin EventId)) :
    Linked ev last (pre ++ post) ↔ Linked ev (topOf last post) pre ∧ Linked ev last post := by
  induction pre with
  | nil => simp [Linked]
  | cons b pre ih => grind [Linked, topOf_append]

theorem InBin.congr {e : EventId} {rest : List EventId} (h : InBin ev e rest)
    (links : ∀ x ∈ e :: rest, (ev' x).nextInBin = (ev x).nextInBin)
    (stale : ∀ x ∈ rest, (ev' x).nextBinStale = (ev x).nextBinStale) : InBin ev' e rest := by
  induction rest generalizing e with
  | nil => exact (links e (by simp)).trans h
  | cons f rest ih =>
    refine ⟨(links e (by simp)).trans h.1, (stale f (by simp)).trans h.2.1, ih h.2.2 ?_ ?_⟩
    · exact fun x hx => links x (List.mem_cons_of_mem _ hx)
    · exact fun x hx => stale x (List.mem_cons_of_mem _ hx)

theorem Linked.congr {bins : List (Bin EventId)} (h : Linked ev last bins)
    (inBin : ∀ x ∈ elements bins, (ev' x).nextInBin = (ev x).nextInBin)
    (stale : ∀ x ∈ elements bins, (ev' x).nextBinStale = (ev x).nextBinStale)
    (next : ∀ x ∈ elements bins, (ev' x).nextBin = (ev x).nextBin) : Linked ev' last bins := by
  induction bins with
  | nil => trivial
  | cons b bins ih =>
    obtain ⟨hin, hfresh, hnext, hbins⟩ := h
    refine ⟨hin.congr ?_ ?_, (stale _ (by simp)).trans hfresh, (next _ (by simp)).trans hnext,
      ih hbins ?_ ?_ ?_⟩
    · exact fun x hx => inBin x (mem_append_left _ hx)
    · exact fun x hx => stale x (mem_append_left _ (List.mem_cons_of_mem _ hx))
    · exact fun x hx => inBin x (mem_append_right _ hx)
    · exact fun x hx => stale x (mem_append_right _ hx)
    · exact fun x hx => next x (mem_append_right _ hx)

theorem Linked.same {bins : List (Bin EventId)} (h : Linked ev last bins)
    (same : ∀ x ∈ elements bins, ev' x = ev x) : Linked ev' last bins :=
  h.congr (fun x hx => by rw [same x hx]) (fun x hx => by rw [same x hx])
    (fun x hx => by rw [same x hx])

/-- The fields that are not links. -/
structure SameData (a b : Event) : Prop where
  tick : a.when = b.when
  priority : a.priority = b.priority
  scheduled : a.scheduled = b.scheduled
  squashed : a.squashed = b.squashed
  initialized : a.initialized = b.initialized
  exitEvent : a.exitEvent = b.exitEvent
  ownQueue : a.ownQueue = b.ownQueue

theorem SameData.refl (a : Event) : SameData a a := ⟨rfl, rfl, rfl, rfl, rfl, rfl, rfl⟩

theorem SameData.trans {a b c : Event} (h : SameData a b) (k : SameData b c) : SameData a c :=
  ⟨h.tick.trans k.tick, h.priority.trans k.priority, h.scheduled.trans k.scheduled,
    h.squashed.trans k.squashed, h.initialized.trans k.initialized,
    h.exitEvent.trans k.exitEvent, h.ownQueue.trans k.ownQueue⟩

theorem SameData.key {a b : Event} (h : SameData a b) : a.key = b.key := by
  rw [Event.key, Event.key, h.tick, h.priority]

/-- A step that only moved links. -/
structure Relinked (q q' : EventQueue) : Prop where
  data : ∀ x, SameData (q'.events x) (q.events x)
  curTick : q'.curTick = q.curTick

theorem Relinked.refl (q : EventQueue) : Relinked q q := ⟨fun _ => .refl _, rfl⟩

theorem Relinked.trans {a b c : EventQueue} (h : Relinked a b) (k : Relinked b c) : Relinked a c :=
  ⟨fun x => (k.data x).trans (h.data x), k.curTick.trans h.curTick⟩

theorem Relinked.key {q q' : EventQueue} (h : Relinked q q') (x : EventId) :
    (q'.events x).key = (q.events x).key := (h.data x).key

theorem relinked_modify (q : EventQueue) (e : EventId) (f : Event → Event)
    (h : ∀ x, SameData (f x) x) : Relinked q (q.modify e f) := by
  refine ⟨fun x => ?_, rfl⟩
  by_cases hx : x = e
  · subst hx
    simpa [modify] using h (q.events x)
  · simpa [modify, hx] using SameData.refl (q.events x)

theorem Relinked.modify {q q' : EventQueue} (h : Relinked q q') (e : EventId)
    (f : Event → Event) (hf : ∀ x, SameData (f x) x) : Relinked q (q'.modify e f) :=
  h.trans (relinked_modify q' e f hf)

@[simp] theorem modify_self (q : EventQueue) (e : EventId) (f : Event → Event) :
    (q.modify e f).events e = f (q.events e) := by simp [modify]

theorem modify_other (q : EventQueue) {e x : EventId} (f : Event → Event) (h : x ≠ e) :
    (q.modify e f).events x = q.events x := by simp [modify, h]

theorem relinked_setNextBin (q : EventQueue) (e : EventId) (next : Option EventId) :
    Relinked q (q.setNextBin e next) :=
  relinked_modify q e _ fun _ => ⟨rfl, rfl, rfl, rfl, rfl, rfl, rfl⟩

theorem followBin_of_fresh {q : EventQueue} {e : EventId}
    (h : (q.events e).nextBinStale = false) : q.followBin e = .ok (q.events e).nextBin := by
  simp [followBin, h]

/-- The key under which the queue files an event. -/
def keyOf (q : EventQueue) (e : EventId) : Nat ×ₗ Int := (q.events e).key

/-- No bin of the list comes before the event. -/
def NotBefore (q : EventQueue) (event : EventId) : List (Bin EventId) → Prop
  | [] => True
  | b :: _ => ¬ q.keyOf b.top < q.keyOf event

theorem topOf_insert {q : EventQueue} {event : EventId} {bins : List (Bin EventId)}
    (h : NotBefore q event bins) : topOf none (Bins.insert q.keyOf event bins) = some event := by
  cases bins with
  | nil => rfl
  | cons b bins =>
    rw [Bins.insert]
    split
    · rfl
    · rename_i hlt
      split
      · rfl
      · rename_i hne
        exact absurd (lt_of_le_of_ne (not_lt.mp hlt) (Ne.symm hne)) h

theorem insertBefore_spec {q : EventQueue} {event : EventId} {bins : List (Bin EventId)}
    (linked : Linked q.events none bins) (nodup : (elements bins).Nodup)
    (new : event ∉ elements bins) (front : NotBefore q event bins) :
    ∃ q', q.insertBefore event (topOf none bins) = .ok q' ∧
      Linked q'.events none (Bins.insert q.keyOf event bins) ∧ Relinked q q' ∧
      q'.inserted = q.inserted ∧ q'.head = q.head ∧
      ∀ x, x ≠ event → x ∉ elements bins → q'.events x = q.events x := by
  cases bins with
  | nil =>
    refine ⟨_, rfl, ?_, relinked_modify q event _ fun _ => ⟨rfl, rfl, rfl, rfl, rfl, rfl, rfl⟩,
      rfl, rfl, fun x hx _ => modify_other q _ hx⟩
    simp [Bins.insert, Linked, InBin, topOf]
  | cons b bins =>
    obtain ⟨hin, hfresh, hnext, hbins⟩ := linked
    rw [elements_cons] at new
    have hb : b.top ≠ event := fun h => new (by simp [h])
    simp only [topOf, insertBefore]
    split
    · rename_i hlt
      have hlt' : q.keyOf event < q.keyOf b.top := Event.lt_iff.mp hlt
      refine ⟨_, rfl, ?_, relinked_modify q event _ fun _ => ⟨rfl, rfl, rfl, rfl, rfl, rfl, rfl⟩,
        rfl, rfl, fun x hx _ => modify_other q _ hx⟩
      rw [Bins.insert, if_pos hlt']
      refine ⟨by simp [InBin], by simp, by simp [topOf], ?_⟩
      refine Linked.same ⟨hin, hfresh, hnext, hbins⟩ fun x hx => modify_other q _ ?_
      rintro rfl
      exact new hx
    · rename_i hlt
      have hlt' : ¬ q.keyOf event < q.keyOf b.top := fun h => hlt (Event.lt_iff.mpr h)
      have heq : q.keyOf event = q.keyOf b.top := le_antisymm (not_lt.mp front) (not_lt.mp hlt')
      rw [followBin_of_fresh hfresh]
      refine ⟨_, rfl, ?_, ?_, rfl, rfl, ?_⟩
      · rw [Bins.insert, if_neg hlt', if_pos heq]
        rw [elements_cons, List.cons_append, List.nodup_cons] at nodup
        have other : ∀ (f g : Event → Event) (x : EventId), x ≠ event → x ≠ b.top →
            ((q.modify event f).modify b.top g).events x = q.events x := by
          intro f g x hx hxb
          rw [modify_other _ _ hxb, modify_other _ _ hx]
        refine ⟨⟨?_, by simp, ?_⟩, ?_, ?_, ?_⟩
        · simp [modify_other _ _ hb.symm]
        · refine hin.congr ?_ ?_
          · intro x hx
            have hxe : x ≠ event := by grind
            by_cases hxb : x = b.top
            · subst hxb
              simp [modify_other _ _ hb]
            · rw [other _ _ x hxe hxb]
          · grind
        · simp [modify_other _ _ hb.symm]
        · simpa [modify_other _ _ hb.symm] using hnext
        · refine hbins.same fun x hx => other _ _ x ?_ ?_
          · grind
          · grind
      · refine Relinked.modify (relinked_modify q event _ ?_) b.top _ ?_
        · exact fun _ => ⟨rfl, rfl, rfl, rfl, rfl, rfl, rfl⟩
        · exact fun _ => ⟨rfl, rfl, rfl, rfl, rfl, rfl, rfl⟩
      · grind [elements_cons, modify_other]

theorem findBin_spec {q : EventQueue} {event : EventId} (bins : List (Bin EventId))
    (b : Bin EventId) (fuel : Nat) (linked : Linked q.events none (b :: bins))
    (before : q.keyOf b.top < q.keyOf event) (enough : bins.length < fuel) :
    ∃ pre p post, b :: bins = pre ++ p :: post ∧
      q.findBin event fuel b.top (topOf none bins) = .ok (p.top, topOf none post) ∧
      (∀ c ∈ pre ++ [p], q.keyOf c.top < q.keyOf event) ∧ NotBefore q event post := by
  induction bins generalizing b fuel with
  | nil =>
    obtain ⟨fuel, rfl⟩ : ∃ n, fuel = n + 1 := ⟨fuel - 1, by simp at enough; omega⟩
    exact ⟨[], b, [], rfl, rfl, by simpa using before, trivial⟩
  | cons c bins ih =>
    rw [length_cons] at enough
    obtain ⟨fuel, rfl⟩ : ∃ n, fuel = n + 1 := ⟨fuel - 1, by omega⟩
    have tail := linked.2.2.2
    simp only [topOf, findBin]
    split
    · rename_i hlt
      obtain ⟨pre, p, post, hsplit, hfind, hpre, hpost⟩ :=
        ih c fuel tail (Event.lt_iff.mp hlt) (by omega)
      refine ⟨b :: pre, p, post, by rw [hsplit]; rfl, ?_, ?_, hpost⟩
      · rw [followBin_of_fresh tail.2.1, tail.2.2.1]
        exact hfind
      · grind
    · rename_i hlt
      exact ⟨[], b, c :: bins, rfl, rfl, by simpa using before,
        fun h => hlt (Event.lt_iff.mpr h)⟩

theorem linked_setNextBin {q : EventQueue} {pre : List (Bin EventId)} {p : Bin EventId}
    (linked : Linked q.events last (pre ++ [p])) (nodup : (elements (pre ++ [p])).Nodup)
    (next : Option EventId) : Linked (q.setNextBin p.top next).events next (pre ++ [p]) := by
  rw [linked_append] at linked ⊢
  obtain ⟨hpre, hin, -, -, -⟩ := linked
  rw [elements_append, elements_cons, nodup_append, List.cons_append,
    List.nodup_cons] at nodup
  obtain ⟨-, ⟨htop, -⟩, hdisjoint⟩ := nodup
  refine ⟨?_, ?_, by simp [setNextBin], by simp [setNextBin, topOf], trivial⟩
  · refine hpre.same fun x hx => modify_other q _ ?_
    rintro rfl
    exact hdisjoint p.top hx p.top (by simp) rfl
  · refine hin.congr ?_ ?_
    · intro x hx
      by_cases hxp : x = p.top
      · subst hxp
        simp [setNextBin]
      · rw [setNextBin, modify_other q _ hxp]
    · grind [setNextBin, modify_other]

/-- The queue holds these bins. -/
structure Holds (q : EventQueue) (bins : List (Bin EventId)) : Prop where
  linked : Linked q.events none bins
  head : q.head = topOf none bins
  nodup : (elements bins).Nodup
  sorted : WellFormed q.keyOf bins
  bounded : (elements bins).length ≤ q.inserted

theorem Holds.length_le {q : EventQueue} {bins : List (Bin EventId)} (h : Holds q bins) :
    bins.length ≤ q.inserted := (length_le_elements bins).trans h.bounded

theorem insert_nodup {key : EventId → Nat ×ₗ Int} {event : EventId} {bins : List (Bin EventId)}
    (sorted : WellFormed key bins) (nodup : (elements bins).Nodup)
    (new : event ∉ elements bins) : (elements (Bins.insert key event bins)).Nodup := by
  rw [elements_insert sorted, (perm_orderedInsert _ _ _).nodup_iff]
  exact List.nodup_cons.mpr ⟨new, nodup⟩

theorem insert_length {key : EventId → Nat ×ₗ Int} {bins : List (Bin EventId)}
    (sorted : WellFormed key bins) (event : EventId) :
    (elements (Bins.insert key event bins)).length = (elements bins).length + 1 := by
  rw [elements_insert sorted, orderedInsert_length]

theorem ok_bind {α β : Type} (a : α) (f : α → Except Error β) : (Except.ok a >>= f) = f a := rfl

theorem place_later {q q' : EventQueue} {event head prev : EventId}
    {curr found : Option EventId} (hhead : q.head = some head)
    (hle : ¬ (q.events event).le (q.events head) = true) (hfollow : q.followBin head = .ok curr)
    (hfind : q.findBin event q.inserted head curr = .ok (prev, found))
    (hinsert : q.insertBefore event found = .ok q') :
    q.place event = .ok (q'.setNextBin prev (some event)) := by
  simp only [place, hhead, if_neg hle, hfollow, ok_bind, hfind, hinsert]
  rfl

theorem topOf_front (pre post post' : List (Bin EventId)) (p : Bin EventId) :
    topOf last (pre ++ [p] ++ post) = topOf last (pre ++ [p] ++ post') := by
  cases pre <;> rfl

theorem linked_place {q q' : EventQueue} {pre post' : List (Bin EventId)} {p : Bin EventId}
    {next : Option EventId} (front : Linked q.events last (pre ++ [p]))
    (nodup : (elements (pre ++ [p])).Nodup) (rest : Linked q'.events none post')
    (htop : topOf none post' = next) (frame : ∀ x ∈ elements (pre ++ [p]), q'.events x = q.events x)
    (apart : p.top ∉ elements post') :
    Linked (q'.setNextBin p.top next).events none (pre ++ [p] ++ post') := by
  rw [linked_append, htop]
  refine ⟨linked_setNextBin (front.same frame) nodup next, ?_⟩
  refine rest.same fun x hx => modify_other q' _ ?_
  rintro rfl
  exact apart hx

theorem place_links {q : EventQueue} {event : EventId} {bins : List (Bin EventId)}
    (linked : Linked q.events none bins) (head : q.head = topOf none bins)
    (nodup : (elements bins).Nodup) (sorted : WellFormed q.keyOf bins)
    (bounded : (elements bins).length < q.inserted) (new : event ∉ elements bins) :
    ∃ q', q.place event = .ok q' ∧ Linked q'.events none (Bins.insert q.keyOf event bins) ∧
      q'.head = topOf none (Bins.insert q.keyOf event bins) ∧ Relinked q q' ∧
      q'.inserted = q.inserted := by
  cases bins with
  | nil =>
    have hhead : q.head = none := head
    obtain ⟨q', hq', linked', relinked', inserted', -, -⟩ :=
      insertBefore_spec linked nodup new trivial
    refine ⟨{ q' with head := some event }, ?_, linked', rfl, ⟨relinked'.data, relinked'.curTick⟩,
      inserted'⟩
    simp only [place, hhead]
    rw [topOf] at hq'
    rw [hq']
    rfl
  | cons b bins =>
    have hhead : q.head = some b.top := head
    by_cases hle : (q.events event).le (q.events b.top) = true
    · have front : NotBefore q event (b :: bins) := not_lt.mpr (Event.le_iff.mp hle)
      obtain ⟨q', hq', linked', relinked', inserted', -, -⟩ :=
        insertBefore_spec linked nodup new front
      refine ⟨{ q' with head := some event }, ?_, linked', (topOf_insert front).symm,
        ⟨relinked'.data, relinked'.curTick⟩, inserted'⟩
      simp only [place, hhead, hle]
      rw [topOf] at hq'
      rw [hq']
      rfl
    · have before : q.keyOf b.top < q.keyOf event :=
        not_le.mp fun hk => hle (Event.le_iff.mpr hk)
      have enough : bins.length < q.inserted := by grind [length_cons, length_le_elements]
      obtain ⟨pre, p, post, hsplit, hfind, hpre, hpost⟩ :=
        findBin_spec bins b q.inserted linked before enough
      have hfollow : q.followBin b.top = .ok (topOf none bins) := by
        rw [followBin_of_fresh linked.2.1, linked.2.2.1]
      have hsplit' : b :: bins = (pre ++ [p]) ++ post := by rw [hsplit]; simp
      rw [hsplit'] at linked nodup new sorted ⊢
      rw [elements_append] at nodup new
      rw [linked_append] at linked
      obtain ⟨q', hq', linked', relinked', inserted', head', frame⟩ :=
        insertBefore_spec linked.2 nodup.of_append_right
          (fun hm => new (mem_append_right _ hm)) hpost
      have disjoint := disjoint_of_nodup_append nodup
      rw [insert_append hpre]
      refine ⟨q'.setNextBin p.top (some event), place_later hhead hle hfollow hfind hq', ?_, ?_,
        relinked'.trans (relinked_setNextBin _ _ _), inserted'⟩
      · refine linked_place linked.1 nodup.of_append_left linked'
          (topOf_insert hpost) ?_ ?_
        · grind
        · rw [elements_insert sorted.right, mem_orderedInsert]
          rintro (rfl | hm)
          · exact lt_irrefl _ (hpre p (by simp))
          · exact disjoint (by simp) hm
      · change q'.head = _
        rw [head', head, hsplit', topOf_front]

theorem insert_spec {q : EventQueue} {event : EventId} {bins : List (Bin EventId)}
    (h : Holds q bins) (new : event ∉ elements bins) :
    ∃ q', q.insert event = .ok q' ∧ Holds q' (Bins.insert q.keyOf event bins) ∧ Relinked q q' := by
  obtain ⟨q', hq', linked, head, relinked, inserted⟩ :=
    place_links (q := { q with inserted := q.inserted + 1 }) h.linked h.head h.nodup h.sorted
      (Nat.lt_succ_of_le h.bounded) new
  refine ⟨q', hq', ⟨linked, head, insert_nodup h.sorted h.nodup new, ?_, ?_⟩,
    ⟨relinked.data, relinked.curTick⟩⟩
  · exact (h.sorted.insert event).congr fun x _ => relinked.key x
  · have hlen : (elements (Bins.insert q.keyOf event bins)).length = (elements bins).length + 1 :=
      insert_length h.sorted event
    rw [inserted]
    exact hlen.trans_le (Nat.succ_le_succ h.bounded)

/-- What the walk inside a bin leaves alone. -/
structure Unlinked (q q' : EventQueue) : Prop where
  relinked : Relinked q q'
  inserted : q'.inserted = q.inserted
  head : q'.head = q.head
  nextBin : ∀ x, (q'.events x).nextBin = (q.events x).nextBin
  stale : ∀ x, (q'.events x).nextBinStale = (q.events x).nextBinStale

theorem InBin.transfer {e f : EventId} {rest : List EventId} (h : InBin ev f rest)
    (link : (ev' e).nextInBin = (ev f).nextInBin) (same : ∀ x ∈ rest, ev' x = ev x) :
    InBin ev' e rest := by
  cases rest with
  | nil => exact link.trans h
  | cons g rest =>
    refine ⟨link.trans h.1, ?_, h.2.2.congr ?_ ?_⟩
    · rw [same g List.mem_cons_self]
      exact h.2.1
    · exact fun x hx => by rw [same x hx]
    · exact fun x hx => by rw [same x (List.mem_cons_of_mem _ hx)]

theorem unlinkInBin_spec {q : EventQueue} {event : EventId} (rest : List EventId)
    (curr : EventId) (fuel : Nat) (inBin : InBin q.events curr rest) (mem : event ∈ rest)
    (nodup : (curr :: rest).Nodup) (enough : rest.length ≤ fuel) :
    ∃ q', q.unlinkInBin event fuel curr (q.events curr).nextInBin = .ok q' ∧
      InBin q'.events curr (rest.erase event) ∧ Unlinked q q' ∧
      ∀ x, x ∉ curr :: rest → q'.events x = q.events x := by
  induction rest generalizing curr fuel with
  | nil => simp at mem
  | cons f rest ih =>
    obtain ⟨hnext, hstale, hin⟩ := inBin
    obtain ⟨fuel, rfl⟩ : ∃ n, fuel = n + 1 := ⟨fuel - 1, by simp at enough; omega⟩
    rw [List.nodup_cons] at nodup
    rw [hnext, unlinkInBin]
    by_cases hf : event = f
    · subst hf
      rw [if_pos rfl, List.erase_cons_head]
      refine ⟨_, rfl, hin.transfer (by simp) ?_, ⟨?_, rfl, rfl, ?_, ?_⟩, ?_⟩
      · grind [modify_other]
      · exact relinked_modify q curr _ fun _ => ⟨rfl, rfl, rfl, rfl, rfl, rfl, rfl⟩
      · intro x
        by_cases hx : x = curr
        · subst hx
          simp
        · rw [modify_other q _ hx]
      · intro x
        by_cases hx : x = curr
        · subst hx
          simp
        · rw [modify_other q _ hx]
      · grind [modify_other]
    · rw [if_neg hf, List.erase_cons_tail (by simpa using Ne.symm hf)]
      have mem' : event ∈ rest := by grind
      obtain ⟨q', hq', hin', unlinked, frame⟩ := ih f fuel hin mem' nodup.2 (by simpa using enough)
      refine ⟨q', hq', ⟨?_, ?_, hin'⟩, unlinked, ?_⟩
      · rw [frame curr nodup.1]
        exact hnext
      · rw [unlinked.stale]
        exact hstale
      · exact fun x hx => frame x fun hm => hx (List.mem_cons_of_mem _ hm)

theorem removeItem_spec {q : EventQueue} {event : EventId} {b : Bin EventId}
    {post : List (Bin EventId)} (linked : Linked q.events none (b :: post))
    (mem : event ∈ b.elements) (nodup : (elements (b :: post)).Nodup)
    (bounded : b.rest.length ≤ q.inserted) :
    ∃ q', q.removeItem event b.top = .ok (topOf none (b.erase event ++ post), q') ∧
      Linked q'.events none (b.erase event ++ post) ∧ Relinked q q' ∧
      q'.inserted = q.inserted ∧ q'.head = q.head ∧
      ∀ x, x ∉ b.elements → q'.events x = q.events x := by
  obtain ⟨hin, hfresh, hnext, hpost⟩ := linked
  rw [elements_cons, nodup_append] at nodup
  obtain ⟨hnodup, -, hdisjoint⟩ := nodup
  rw [removeItem]
  by_cases htop : event = b.top
  · subst htop
    rw [if_pos rfl, followBin_of_fresh hfresh, ok_bind, hnext]
    rw [Bin.erase, if_pos rfl]
    cases hr : b.rest with
    | nil =>
      have hnone : (q.events b.top).nextInBin = none := by simpa [hr, InBin] using hin
      rw [hnone]
      exact ⟨q, rfl, hpost, .refl q, rfl, rfl, fun x _ => rfl⟩
    | cons f rest =>
      rw [hr] at hin hnodup hdisjoint
      obtain ⟨hlink, -, hin'⟩ := hin
      rw [hlink]
      refine ⟨q.setNextBin f (topOf none post), rfl, ⟨?_, ?_, ?_, ?_⟩,
        relinked_setNextBin _ _ _, rfl, rfl, ?_⟩
      · refine hin'.congr ?_ ?_
        · intro x hx
          by_cases hxf : x = f
          · subst hxf
            simp [setNextBin]
          · rw [setNextBin, modify_other q _ hxf]
        · grind [setNextBin, modify_other]
      · simp [setNextBin]
      · simp [setNextBin]
      · refine hpost.same fun x hx => modify_other q _ ?_
        rintro rfl
        exact hdisjoint x (by simp) x hx rfl
      · refine fun x hx => modify_other q _ ?_
        rintro rfl
        exact hx (by simp [Bin.elements, hr])
  · have hrest : event ∈ b.rest := by
      rcases List.mem_cons.mp mem with h | h
      · exact absurd h htop
      · exact h
    obtain ⟨q', hq', hin', unlinked, frame⟩ :=
      unlinkInBin_spec b.rest b.top q.inserted hin hrest hnodup bounded
    rw [if_neg htop, hq', ok_bind, Bin.erase, if_neg htop]
    refine ⟨q', rfl, ⟨hin', ?_, ?_, ?_⟩, unlinked.relinked, unlinked.inserted, unlinked.head,
      frame⟩
    · rw [unlinked.stale]
      exact hfresh
    · rw [unlinked.nextBin]
      exact hnext
    · refine hpost.same fun x hx => frame x fun hm => ?_
      exact hdisjoint x hm x hx rfl

theorem remove_later {q q' : EventQueue} {event head prev curr : EventId}
    {next top : Option EventId} (hhead : q.head = some head)
    (own : (q.events event).ownQueue = true)
    (hne : ¬ (q.events head).eq (q.events event) = true) (hfollow : q.followBin head = .ok next)
    (hfind : q.findBin event q.inserted head next = .ok (prev, some curr))
    (heq : (q.events curr).eq (q.events event) = true)
    (hremove : q.removeItem event curr = .ok (top, q')) :
    q.remove event = .ok (q'.setNextBin prev top) := by
  simp only [remove, hhead, own, if_neg hne, hfollow, ok_bind, hfind, heq, hremove]
  rfl

theorem erase_nodup {key : EventId → Nat ×ₗ Int} {event : EventId} {bins : List (Bin EventId)}
    (sorted : WellFormed key bins) (nodup : (elements bins).Nodup)
    (mem : event ∈ elements bins) : (elements (Bins.erase key event bins)).Nodup := by
  rw [elements_erase sorted mem]
  exact nodup.erase event

theorem remove_spec {q : EventQueue} {event : EventId} {bins : List (Bin EventId)}
    (h : Holds q bins) (mem : event ∈ elements bins) (own : (q.events event).ownQueue = true) :
    ∃ q', q.remove event = .ok q' ∧ Holds q' (Bins.erase q.keyOf event bins) ∧ Relinked q q' := by
  -- what is left to show of a queue with the new links
  have done : ∀ q' : EventQueue, Relinked q q' → q'.inserted = q.inserted →
      Linked q'.events none (Bins.erase q.keyOf event bins) →
      q'.head = topOf none (Bins.erase q.keyOf event bins) →
      Holds q' (Bins.erase q.keyOf event bins) := by
    intro q' relinked inserted linked head
    refine ⟨linked, head, erase_nodup h.sorted h.nodup mem, ?_, ?_⟩
    · exact (h.sorted.erase event).congr fun x _ => relinked.key x
    · rw [elements_erase h.sorted mem, inserted]
      exact List.length_erase_le.trans h.bounded
  cases bins with
  | nil => simp at mem
  | cons b bins =>
    have hhead : q.head = some b.top := h.head
    have linked := h.linked
    by_cases heq : (q.events b.top).eq (q.events event) = true
    · have hkey : q.keyOf b.top = q.keyOf event := Event.eq_iff.mp heq
      have bounded : b.rest.length ≤ q.inserted :=
        (rest_length_lt (List.mem_cons_self)).le.trans h.bounded
      obtain ⟨q', hq', linked', relinked', inserted', -, -⟩ :=
        removeItem_spec linked (h.sorted.mem_head mem hkey) h.nodup bounded
      have hbins : Bins.erase q.keyOf event (b :: bins) = b.erase event ++ bins := by
        rw [Bins.erase, if_pos hkey]
      rw [hbins] at done ⊢
      refine ⟨{ q' with head := topOf none (b.erase event ++ bins) }, ?_, done _ ?_ inserted'
        linked' rfl, ⟨relinked'.data, relinked'.curTick⟩⟩
      · simp only [remove, hhead, own, heq, hq']
        rfl
      · exact ⟨relinked'.data, relinked'.curTick⟩
    · have hkey : q.keyOf b.top ≠ q.keyOf event := fun hk => heq (Event.eq_iff.mpr hk)
      have before : q.keyOf b.top < q.keyOf event := lt_of_le_of_ne (h.sorted.head_le mem) hkey
      have enough : bins.length < q.inserted := by
        have hlen := h.length_le
        rw [length_cons] at hlen
        omega
      obtain ⟨pre, p, post, hsplit, hfind, hpre, hpost⟩ :=
        findBin_spec bins b q.inserted linked before enough
      have hfollow : q.followBin b.top = .ok (topOf none bins) := by
        rw [followBin_of_fresh linked.2.1, linked.2.2.1]
      have hsplit' : b :: bins = (pre ++ [p]) ++ post := by rw [hsplit]; simp
      have sorted := h.sorted
      have nodup := h.nodup
      have head := h.head
      have bounded := h.bounded
      rw [hsplit'] at linked nodup mem sorted head bounded done ⊢
      rw [elements_append] at nodup mem
      rw [linked_append] at linked
      have hmem : event ∈ elements post := by
        rcases List.mem_append.mp mem with hm | hm
        · obtain ⟨c, hc, hec⟩ := List.mem_flatMap.mp hm
          have hsame : q.keyOf event = q.keyOf c.top := by
            rcases List.mem_cons.mp hec with rfl | hrest
            · rfl
            · exact sorted.uniform c (mem_append_left _ hc) event hrest
          exact absurd (hpre c hc) (hsame ▸ lt_irrefl _)
        · exact hm
      cases post with
      | nil => simp at hmem
      | cons c post =>
        have hck : q.keyOf c.top = q.keyOf event :=
          le_antisymm (sorted.right.head_le hmem) (not_lt.mp hpost)
        have hcb : c.rest.length ≤ q.inserted :=
          (rest_length_lt (by simp)).le.trans bounded
        obtain ⟨q', hq', linked', relinked', inserted', head', frame⟩ :=
          removeItem_spec linked.2 (sorted.right.mem_head hmem hck) nodup.of_append_right hcb
        have disjoint := disjoint_of_nodup_append nodup
        have hbins : Bins.erase q.keyOf event (pre ++ [p] ++ c :: post)
            = pre ++ [p] ++ (c.erase event ++ post) := by
          rw [erase_append hpre, Bins.erase, if_pos hck]
        rw [hbins] at done ⊢
        have relinked := relinked'.trans (relinked_setNextBin q' p.top
          (topOf none (c.erase event ++ post)))
        refine ⟨_, remove_later hhead own heq hfollow hfind (Event.eq_iff.mpr hck) hq',
          done _ relinked inserted' ?_ ?_, relinked⟩
        · refine linked_place linked.1 nodup.of_append_left linked' rfl ?_ ?_
          · refine fun x hx => frame x fun hm => disjoint hx ?_
            exact mem_append_left _ hm
          · intro hm
            refine disjoint (a := p.top) (by simp) ?_
            rw [elements_append, Bin.elements_erase] at hm
            rcases List.mem_append.mp hm with hm | hm
            · exact mem_append_left _ (List.mem_of_mem_erase hm)
            · exact mem_append_right _ hm
        · change q'.head = _
          rw [head', head, topOf_front]

theorem modify_each {β : Type} (q : EventQueue) (e : EventId) (f : Event → Event)
    (get : Event → β) (same : ∀ x, get (f x) = get x) (x : EventId) :
    get ((q.modify e f).events x) = get (q.events x) := by
  by_cases hx : x = e
  · subst hx
    rw [modify_self, same]
  · rw [modify_other q f hx]

theorem Holds.modify {q : EventQueue} {bins : List (Bin EventId)} (h : Holds q bins) (e : EventId)
    (f : Event → Event) (next : ∀ x, (f x).nextBin = x.nextBin)
    (inBin : ∀ x, (f x).nextInBin = x.nextInBin) (stale : ∀ x, (f x).nextBinStale = x.nextBinStale)
    (key : ∀ x, (f x).key = x.key) : Holds (q.modify e f) bins := by
  refine ⟨h.linked.congr ?_ ?_ ?_, h.head, h.nodup, h.sorted.congr ?_, h.bounded⟩
  · exact fun x _ => modify_each q e f Event.nextInBin inBin x
  · exact fun x _ => modify_each q e f Event.nextBinStale stale x
  · exact fun x _ => modify_each q e f Event.nextBin next x
  · exact fun x _ => modify_each q e f Event.key key x

theorem popHead_eq {q : EventQueue} {event : EventId} (h : q.head = some event) :
    q.popHead = (do
      let (top, q') ← (q.modify event fun x => { x with scheduled := false }).removeItem event event
      pure (event, { q' with head := top })) := by
  simp only [popHead, h, removeItem]
  cases (q.modify event fun x => { x with scheduled := false }).followBin event with
  | error => rfl
  | ok =>
    split <;> rfl

theorem popHead_spec {q : EventQueue} {b : Bin EventId} {bins : List (Bin EventId)}
    (h : Holds q (b :: bins)) :
    ∃ q', q.popHead = .ok (b.top, q') ∧ Holds q' (Bins.erase q.keyOf b.top (b :: bins)) ∧
      Relinked (q.modify b.top fun x => { x with scheduled := false }) q' := by
  have h' : Holds (q.modify b.top fun x => { x with scheduled := false }) (b :: bins) :=
    h.modify _ _ (fun _ => rfl) (fun _ => rfl) (fun _ => rfl) fun _ => rfl
  have bounded : b.rest.length ≤ (q.modify b.top fun x => { x with scheduled := false }).inserted :=
    (rest_length_lt List.mem_cons_self).le.trans h'.bounded
  have mem : b.top ∈ elements (b :: bins) := by simp
  obtain ⟨q', hq', linked', relinked', inserted', -, -⟩ :=
    removeItem_spec h'.linked List.mem_cons_self h'.nodup bounded
  have hbins : Bins.erase q.keyOf b.top (b :: bins) = b.erase b.top ++ bins := by
    rw [Bins.erase, if_pos rfl]
  have keys : ∀ x, q'.keyOf x = q.keyOf x := by
    intro x
    rw [keyOf, relinked'.key, keyOf]
    exact modify_each q b.top (fun x => { x with scheduled := false }) Event.key (fun _ => rfl) x
  rw [hbins]
  refine ⟨{ q' with head := topOf none (b.erase b.top ++ bins) }, ?_, ⟨linked', rfl, ?_, ?_, ?_⟩,
    ⟨relinked'.data, relinked'.curTick⟩⟩
  · rw [popHead_eq h.head, hq']
    rfl
  · rw [← hbins]
    exact erase_nodup h.sorted h.nodup mem
  · rw [← hbins]
    exact (h.sorted.erase b.top).congr fun x _ => keys x
  · rw [← hbins, elements_erase h.sorted mem]
    rw [inserted']
    exact List.length_erase_le.trans h.bounded

end Gem5.Sim.EventQueue
