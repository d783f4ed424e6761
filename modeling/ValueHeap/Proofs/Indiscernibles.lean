import ValueHeap.Proofs.Refusals

/-!
# Copies cannot be told from their originals

A copy holds what its original holds, with the slots renamed and every iterator back at its start.
No question about a value asks for a slot or for how far an iterator has gone, so the copy answers
each of them as the original does; where the original has no document, the copy has none for the
same reason.

* `Payload.Resembles`: the same payload up to slots and iterators; `Payload.Blind`: what cannot see
  the difference;
* `Imitates`: some values of an arena are found again in another one, under other slots; it
  composes;
* **`Imitates.exportSlot`**: then they have the same documents, or none for the same reason;
* **`World.Reachable.copies_indiscernible`**: so have two copies, also when they are compared.
-/

namespace ValueHeap

/-! ## 1. Payloads that read alike -/

namespace Payload

variable {α : Type} {f g : Slot → Slot} {p q r : Payload}

@[simp] theorem restarted_restarted (p : Payload) : p.restarted.restarted = p.restarted := by
  cases p <;> rfl

theorem restarted_mapSlots (f : Slot → Slot) (p : Payload) :
    (p.mapSlots f).restarted = p.restarted.mapSlots f := by
  cases p <;> rfl

theorem mapSlots_mapSlots (f g : Slot → Slot) (p : Payload) :
    (p.mapSlots f).mapSlots g = p.mapSlots (g ∘ f) := by
  cases p <;> simp [mapSlots, Entries.mapSlots]

theorem mapSlots_id (p : Payload) : p.mapSlots id = p := by
  cases p <;> simp [mapSlots, Entries.mapSlots]

/-- `q` is `p` with the slots renamed, but for how far an iterator has gone. -/
def Resembles (f : Slot → Slot) (p q : Payload) : Prop := q.restarted = p.restarted.mapSlots f

theorem Resembles.refl (p : Payload) : p.Resembles id p := p.restarted.mapSlots_id.symm

theorem resembles_copied (f : Slot → Slot) (p : Payload) :
    p.Resembles f (p.restarted.mapSlots f) := by
  unfold Resembles
  rw [restarted_mapSlots, restarted_restarted]

theorem Resembles.trans (h : p.Resembles f q) (k : q.Resembles g r) : p.Resembles (g ∘ f) r := by
  unfold Resembles at h k ⊢
  rw [k, h, mapSlots_mapSlots]

theorem restarted_eq_self (h : p.kind ≠ .iterator) : p.restarted = p := by
  cases p with
  | iterator => exact absurd rfl h
  | _ => rfl

theorem exists_walk (h : p.kind = .iterator) : ∃ walk, p = .iterator walk := by
  cases p with
  | iterator walk => exact ⟨walk, rfl⟩
  | _ => cases h

/-- What is asked about a payload does not depend on slots or on how far an iterator has gone. -/
structure Blind (ask : Payload → α) : Prop where
  restarted : ∀ p, ask p.restarted = ask p
  mapSlots : ∀ f p, ask (p.mapSlots f) = ask p

theorem Resembles.ask_eq {ask : Payload → α} (h : p.Resembles f q) (hb : Blind ask) :
    ask q = ask p := by
  rw [← hb.restarted q, h, hb.mapSlots, hb.restarted]

theorem blind_kind : Blind kind := ⟨kind_restarted, kind_mapSlots⟩

/-- Only iterators differ by more than the slots. -/
theorem Resembles.cases (h : p.Resembles f q) :
    q = p.mapSlots f ∨ ∃ walk walk', p = .iterator walk ∧ q = .iterator walk' := by
  have hk := h.ask_eq blind_kind
  by_cases hp : p.kind = .iterator
  · obtain ⟨walk, hwalk⟩ := exists_walk hp
    obtain ⟨walk', hwalk'⟩ := exists_walk (hk.trans hp)
    exact .inr ⟨walk, walk', hwalk, hwalk'⟩
  · unfold Resembles at h
    rw [restarted_eq_self hp, restarted_eq_self (hk ▸ hp)] at h
    exact .inl h

theorem blind_iterable : Blind iterable :=
  ⟨fun p => by cases p <;> rfl, fun _ p => by cases p <;> rfl⟩

theorem blind_callable : Blind callable :=
  ⟨fun p => by cases p <;> rfl, fun _ p => by cases p <;> rfl⟩

theorem blind_generates : Blind generates :=
  ⟨fun p => by cases p <;> rfl, fun _ p => by cases p <;> rfl⟩

theorem blind_truth : Blind truth :=
  ⟨fun p => by cases p <;> rfl, fun _ p => by cases p <;> rfl⟩

theorem blind_wireBytes? : Blind wireBytes? :=
  ⟨fun p => by cases p <;> rfl, fun _ p => by cases p <;> rfl⟩

/-- A comparison that is blind on both sides. -/
structure BlindPair (test : Payload → Payload → Bool) : Prop where
  left : ∀ q, Blind fun p => test p q
  right : ∀ p, Blind (test p)

theorem blindPair_valueEq : BlindPair valueEq where
  left q := ⟨fun p => by cases p <;> rfl, fun _ p => by cases p <;> rfl⟩
  right p := ⟨fun q => by cases p <;> cases q <;> rfl, fun _ q => by cases p <;> cases q <;> rfl⟩

theorem blindPair_greater : BlindPair greater where
  left q := ⟨fun p => by cases p <;> rfl, fun _ p => by cases p <;> rfl⟩
  right p := ⟨fun q => by cases p <;> cases q <;> rfl, fun _ q => by cases p <;> cases q <;> rfl⟩

theorem blindPair_atLeast : BlindPair atLeast where
  left q := ⟨fun p => by cases p <;> rfl, fun _ p => by cases p <;> rfl⟩
  right p := ⟨fun q => by cases p <;> cases q <;> rfl, fun _ q => by cases p <;> cases q <;> rfl⟩

end Payload

namespace Arena

variable {a b c t : Arena} {P Q : Slot → Prop} {f g : Slot → Slot} {ledger : List Handle}
  {moving : List Slot} {levels : Nat} {i : Slot} {x y x' y' : Handle}

/-! ## 2. Values that are found again -/

/-- The values of `a` in the slots with `P`, and whatever they refer to, are found again in `b`: `f`
    tells where. -/
structure Imitates (a b : Arena) (P : Slot → Prop) (f : Slot → Slot) : Prop where
  closed : ∀ i j, P i → j ∈ a.childrenAt i → P j
  found : ∀ i, P i → ∃ p q, a.payload? i = some p ∧ b.payload? (f i) = some q ∧ p.Resembles f q

namespace Imitates

theorem trans (h : Imitates a b P f) (k : Imitates b c Q g) (hPQ : ∀ i, P i → Q (f i)) :
    Imitates a c P (g ∘ f) := by
  refine ⟨h.closed, fun i hi => ?_⟩
  obtain ⟨p, q, hp, hq, hpq⟩ := h.found i hi
  obtain ⟨q', r, hq', hr, hqr⟩ := k.found (f i) (hPQ i hi)
  cases hq.symm.trans hq'
  exact ⟨p, r, hp, hr, hpq.trans hqr⟩

theorem mono (h : Imitates a b P f) (hc : ∀ i j, Q i → j ∈ a.childrenAt i → Q j)
    (hQ : ∀ i, Q i → P i) : Imitates a b Q f :=
  ⟨hc, fun i hi => h.found i (hQ i hi)⟩

theorem live (h : Imitates a b P f) (hi : P i) : (b.occupant? (f i)).isSome := by
  obtain ⟨_, _, _, hq, _⟩ := h.found i hi
  exact occupied_of_payload? hq

end Imitates

/-- What an arena keeps is found where it was. -/
theorem Grows.imitates (co : a.Coherent ledger moving) (w : Grows a b) :
    Imitates a b (fun i => (a.occupant? i).isSome) (fun i => i) := by
  refine ⟨fun i j _ hj => co.closed j i hj, fun i hi => ?_⟩
  obtain ⟨o, ho⟩ := Option.isSome_iff_exists.mp hi
  have hp := payload?_of_occupant? ho
  exact ⟨o.payload, o.payload, hp, (w.kept i _ hp).1, .refl _⟩

/-- What is copied is found in its copy. -/
theorem IsCopy.imitates {root : Slot} {h : Handle} (co : a.Coherent ledger moving)
    (k : IsCopy a t b root f h) (hr : (a.occupant? root).isSome) :
    Imitates a b (a.Leads root) f := by
  refine ⟨fun i j hi hj => hi.tail hj, fun i hi => ?_⟩
  obtain ⟨o, ho⟩ := Option.isSome_iff_exists.mp (co.leads_live hi hr)
  have hp := payload?_of_occupant? ho
  exact ⟨o.payload, _, hp, k.payload? ((co.mem_partsOf hr i).mpr hi) hp,
    Payload.resembles_copied f _⟩

theorem exportAll_map {α β γ : Type} {r : α → β} {e : β → Except Failure γ}
    {e' : α → Except Failure γ} {l : List α} (h : ∀ x ∈ l, e (r x) = e' x) :
    exportAll e (l.map r) = exportAll e' l := by
  induction l with
  | nil => rfl
  | cons x rest ih =>
    rw [List.map_cons, exportAll, exportAll, h x List.mem_cons_self,
      ih fun y hy => h y (List.mem_cons_of_mem x hy)]

/-- **A value that is found again has the same document, or none for the same reason.** -/
theorem Imitates.exportSlot (h : Imitates a b P f) (hi : P i) :
    b.exportSlot levels (f i) = a.exportSlot levels i := by
  induction levels generalizing i with
  | zero => rfl
  | succ levels ih =>
    obtain ⟨p, q, hp, hq, hpq⟩ := h.found i hi
    have hchild : ∀ j ∈ p.children, b.exportSlot levels (f j) = a.exportSlot levels j := fun j hj =>
      ih (h.closed i j hi (by rwa [childrenAt_of_payload? hp]))
    rw [Arena.exportSlot, Arena.exportSlot, follow_eq_ok hp, follow_eq_ok hq]
    rcases hpq.cases with rfl | ⟨walk, walk', rfl, rfl⟩
    · cases p with
      | list items => exact congrArg (·.map Document.array) (exportAll_map hchild)
      | tuple items => exact congrArg (·.map Document.array) (exportAll_map hchild)
      | dictionary entries =>
        refine congrArg (·.map Document.object) (exportAll_map fun m hm => ?_)
        exact congrArg (·.map fun d => (m.1, d)) (hchild m.2 (List.mem_map_of_mem hm))
      | _ => rfl
    · rfl

/-! ## 3. Handles that cannot be told apart -/

/-- No question about one value tells the value behind `y` from that behind `x`. -/
structure Alike (a : Arena) (x : Handle) (b : Arena) (y : Handle) : Prop where
  document : b.exportDocument y = a.exportDocument x
  stream : ∀ s, b.writeValue y s = a.writeValue x s
  kindOf : b.kindOf y = a.kindOf x
  iterable : b.iterable y = a.iterable x
  callable : b.callable y = a.callable x
  generates : b.generates y = a.generates x
  truth : b.truth y = a.truth x

/-- No question about two values tells those behind `x'` and `y'` from those behind `x` and `y`. -/
structure AlikePair (a : Arena) (x y : Handle) (b : Arena) (x' y' : Handle) : Prop where
  equalValues : b.equalValues x' y' = a.equalValues x y
  greater : b.greater x' y' = a.greater x y
  atLeast : b.atLeast x' y' = a.atLeast x y

theorem ask_of_payload? {p : Payload} (question : Question) (hr : a.resolves x)
    (hp : a.payload? x.slot = some p) : a.ask question x = .ok p := by
  obtain ⟨o, ho⟩ := resolves_iff.mp hr
  cases hp.symm.trans (payload?_of_occupant? (occupant?_of_lookup ho))
  unfold ask
  rw [ho]

/-- The value behind `x` is found again behind `y`. -/
structure Recalls (a : Arena) (x : Handle) (b : Arena) (y : Handle) : Prop where
  named : a.resolves x
  renamed : b.resolves y
  found : ∃ P f, Imitates a b P f ∧ P x.slot ∧ y.slot = f x.slot

theorem Recalls.payloads (h : Recalls a x b y) : ∃ p q f, a.payload? x.slot = some p ∧
    b.payload? y.slot = some q ∧ p.Resembles f q := by
  obtain ⟨P, f, himit, hP, hs⟩ := h.found
  obtain ⟨p, q, hp, hq, hpq⟩ := himit.found x.slot hP
  exact ⟨p, q, f, hp, hs ▸ hq, hpq⟩

/-- **A value that is found again cannot be told from the first.** -/
theorem Recalls.alike (h : Recalls a x b y) : Alike a x b y := by
  obtain ⟨p, q, f, hp, hq, hpq⟩ := h.payloads
  obtain ⟨o, ho⟩ := resolves_iff.mp h.named
  obtain ⟨o', ho'⟩ := resolves_iff.mp h.renamed
  have hquestion : ∀ {α : Type} {g : Payload → α} (question : Question), Payload.Blind g →
      (b.ask question y).map g = (a.ask question x).map g := fun question hg => by
    rw [ask_of_payload? question h.named hp, ask_of_payload? question h.renamed hq]
    exact congrArg Except.ok (hpq.ask_eq hg)
  refine ⟨?_, fun s => ?_, hquestion _ Payload.blind_kind, hquestion _ Payload.blind_iterable,
    hquestion _ Payload.blind_callable, hquestion _ Payload.blind_generates,
    hquestion _ Payload.blind_truth⟩
  · obtain ⟨P, f, himit, hP, hs⟩ := h.found
    unfold exportDocument
    rw [ho, ho', hs]
    exact himit.exportSlot hP
  · cases hp.symm.trans (payload?_of_occupant? (occupant?_of_lookup ho))
    cases hq.symm.trans (payload?_of_occupant? (occupant?_of_lookup ho'))
    unfold writeValue
    rw [ho, ho']
    simp only [hpq.ask_eq Payload.blind_wireBytes?, hpq.ask_eq Payload.blind_kind]

/-- **Two values that are found again compare as the first two.** -/
theorem Recalls.alikePair (h : Recalls a x b x') (k : Recalls a y b y') :
    AlikePair a x y b x' y' := by
  obtain ⟨p, q, f, hp, hq, hpq⟩ := h.payloads
  obtain ⟨p', q', f', hp', hq', hpq'⟩ := k.payloads
  have hquestion : ∀ {test : Payload → Payload → Bool} (question : Question),
      Payload.BlindPair test → b.askTwo question test x' y' = a.askTwo question test x y := by
    intro test question ht
    unfold askTwo
    rw [ask_of_payload? question h.named hp, ask_of_payload? question h.renamed hq,
      ask_of_payload? question k.named hp', ask_of_payload? question k.renamed hq']
    refine congrArg Except.ok ?_
    rw [hpq'.ask_eq (ht.right q)]
    exact hpq.ask_eq (ht.left p')
  exact ⟨hquestion _ Payload.blindPair_valueEq, hquestion _ Payload.blindPair_greater,
    hquestion _ Payload.blindPair_atLeast⟩

end Arena

/-! ## 4. In every world a program can reach -/

namespace World

open Arena

variable {w : World} {k l : Nat} {a t : Arena} {x y x' y' : Handle}

/-- A copy issues the handle that it answers with. -/
theorem copied_of_issues (ha : w.arena? k = some a) (ht : w.arena? l = some t)
    (h : x' ∈ w.issues (duplicate k l x) l) :
    ∃ b, (if k = l then a.copy x else a.copyInto x t) = .ok x' b := by
  have hissued : x' ∈ ((if k = l then a.copy x else a.copyInto x t).map .handle).issued := by
    unfold duplicate at h
    by_cases e : k = l
    · subst e
      rw [if_pos rfl] at h ⊢
      simpa only [issues, ha, if_pos, perform] using h
    · rw [if_neg e] at h ⊢
      simpa only [issues, ha, ht, if_pos] using h
  generalize (if k = l then a.copy x else a.copyInto x t) = r at hissued ⊢
  obtain ⟨e | g, b⟩ := r
  · cases hissued
  · cases List.mem_singleton.mp hissued
    exact ⟨b, rfl⟩

/-- What a copy leaves: the copy is in the target, and source and target have grown. -/
theorem Reachable.copied (hw : w.Reachable) (ha : w.arena? k = some a) (ht : w.arena? l = some t)
    (h : x' ∈ w.issues (duplicate k l x) l) :
    ∃ s b f, (w.after (duplicate k l x)).arena? k = some s ∧
      (w.after (duplicate k l x)).arena? l = some b ∧ Grows a s ∧ Grows t b ∧
      IsCopy a t b x.slot f x' ∧ b.resolves x' := by
  have ca := hw.sound.coherent k a ha
  have ct := hw.sound.coherent l t ht
  obtain ⟨b, hc⟩ := copied_of_issues ha ht h
  obtain ⟨hb, hs⟩ := arena?_duplicate ha ht hc
  obtain ⟨⟨f, hcopy⟩, hgrows, hr⟩ :
      (∃ f, IsCopy a t b x.slot f x') ∧ Grows t b ∧ b.resolves x' := by
    by_cases e : k = l
    · subst e
      cases ha.symm.trans ht
      rw [if_pos rfl] at hc
      have hmeets := copyTo_meets (h := x) ca ca.vacant false
      have hends := copyTo_grows a x ca.vacant false
      rw [show a.copyTo x a false = _ from hc] at hmeets hends
      exact ⟨hmeets.2, hends⟩
    · rw [if_neg e] at hc
      have hmeets := copyTo_meets (h := x) ca ct.vacant true
      have hends := copyTo_grows a x ct.vacant true
      rw [show a.copyTo x t true = _ from hc] at hmeets hends
      exact ⟨hmeets.2, hends⟩
  refine ⟨if k = l then b else a, b, f, ?_, hb, ?_, hgrows, hcopy, hr⟩
  · by_cases e : k = l
    · rw [if_pos e, e]
      rwa [e] at hb
    · rw [if_neg e]
      exact hs e
  · by_cases e : k = l
    · subst e
      cases ha.symm.trans ht
      rwa [if_pos rfl]
    · rw [if_neg e]
      exact .refl ca.vacant

/-- What is copied is found again in its copy. -/
theorem Reachable.duplicated (hw : w.Reachable) (ha : w.arena? k = some a)
    (ht : w.arena? l = some t) (hx : a.resolves x) (h : x' ∈ w.issues (duplicate k l x) l) :
    ∃ s b f, (w.after (duplicate k l x)).arena? k = some s ∧
      (w.after (duplicate k l x)).arena? l = some b ∧ Grows a s ∧ Grows t b ∧
      Imitates a b (a.Leads x.slot) f ∧ b.resolves x' ∧ x'.slot = f x.slot := by
  obtain ⟨s, b, f, hs, hb, growsS, growsB, hcopy, hr⟩ := hw.copied ha ht h
  have himit := hcopy.imitates (hw.sound.coherent k a ha) (resolves_iff_handleOf.mp hx).1
  refine ⟨s, b, f, hs, hb, growsS, growsB, himit, hr, ?_⟩
  rw [hcopy.handle]
  rfl

/-- **A copy cannot be told from its original.** Two values of the arena at `k` are copied into the
    arena at `l`, which may be the same. -/
theorem Reachable.copies_indiscernible (hw : w.Reachable) (ha : w.arena? k = some a)
    (ht : w.arena? l = some t) (hx : a.resolves x) (hy : a.resolves y)
    (hp : w.Permits (duplicate k l x)) (hx' : x' ∈ w.issues (duplicate k l x) l)
    (hy' : y' ∈ (w.after (duplicate k l x)).issues (duplicate k l y) l) :
    ∃ s b, ((w.after (duplicate k l x)).after (duplicate k l y)).arena? k = some s ∧
      ((w.after (duplicate k l x)).after (duplicate k l y)).arena? l = some b ∧
      -- each copy answers as its original did
      (Alike a x b x' ∧ Alike a y b y') ∧
      -- the copies compare as their originals did
      (AlikePair a x y b x' y' ∧ AlikePair a y x b y' x') ∧
      -- the originals are still the same
      (Alike a x s x ∧ Alike a y s y ∧ AlikePair a x y s x y ∧ AlikePair a y x s y x) := by
  have hu := hw.step hp
  have ca := hw.sound.coherent k a ha
  obtain ⟨s, b, f, hs, hb, growsS, growsB, himit, hr, hf⟩ := hw.duplicated ha ht hx hx'
  obtain ⟨s₂, b₂, f₂, hs₂, hb₂, growsS₂, growsB₂, himit₂, hr₂, hf₂⟩ :=
    hu.duplicated hs hb (growsS.resolves hy) hy'
  have cb := hu.sound.coherent l b hb
  -- the first copy stays where it is
  have recallX : Recalls a x b₂ x' := ⟨hx, growsB₂.resolves hr, _, _,
    himit.trans (growsB₂.imitates cb) fun i hi => himit.live hi, .refl, hf⟩
  -- the second is made of what the first one left of the original
  have hlive := (resolves_iff_handleOf.mp hy).1
  have hkept : Imitates a s (a.Leads y.slot) (fun i => i) :=
    (growsS.imitates ca).mono (fun _ _ hi hj => hi.tail hj) fun i hi => ca.leads_live hi hlive
  have recallY : Recalls a y b₂ y' := ⟨hy, hr₂, _, _,
    hkept.trans himit₂ fun i hi => growsS.leads hi, .refl, hf₂⟩
  have hstay : ∀ z, a.resolves z → Recalls a z s₂ z := fun z hz =>
    have grows := growsS.trans growsS₂
    ⟨hz, grows.resolves hz, _, _, grows.imitates ca, (resolves_iff_handleOf.mp hz).1, rfl⟩
  exact ⟨s₂, b₂, hs₂, hb₂, ⟨recallX.alike, recallY.alike⟩,
    ⟨recallX.alikePair recallY, recallY.alikePair recallX⟩, (hstay x hx).alike, (hstay y hy).alike,
    (hstay x hx).alikePair (hstay y hy), (hstay y hy).alikePair (hstay x hx)⟩

/-- A program with an integer and an iterator. -/
def counting : List Action :=
  [.addArena .unlimited .silent, .call 0 (.buildScalar (.integer 7)), .call 0 (.buildRange 0 3 1)]

theorem counting_reachable : (start.run counting).1.Reachable :=
  reachable_run counting (by decide +kernel)

/-- The arena of `counting`, at the end. -/
def countingArena : Arena := ((start.run counting).1.arena? 0).get (by decide +kernel)

theorem arena?_counting : (start.run counting).1.arena? 0 = some countingArena :=
  (Option.some_get _).symm

/-- The copies in `counting`: that of the integer reads and compares as its original, and that of
    the iterator has no document for the same reason. -/
theorem copies_indiscernible_counting :
    (start.run counting).1.Permits (duplicate 0 0 ⟨⟨1⟩, 0, 0⟩) ∧
    ∃ b, (((start.run counting).1.after (duplicate 0 0 ⟨⟨1⟩, 0, 0⟩)).after
        (duplicate 0 0 ⟨⟨1⟩, 1, 0⟩)).arena? 0 = some b ∧
      b.exportDocument ⟨⟨1⟩, 2, 0⟩ = .ok (.integer 7) ∧
      b.exportDocument ⟨⟨1⟩, 3, 0⟩ = .error (.error (.unrepresentable (.kind .iterator))) ∧
      b.atLeast ⟨⟨1⟩, 2, 0⟩ ⟨⟨1⟩, 3, 0⟩ = .ok false := by
  have hrange : (countingArena.perform (.copy ⟨⟨1⟩, 0, 0⟩)).InRange :=
    Outcome.inRange_of_refills (n := 3) (by cbv) (by cbv)
  have hp : (start.run counting).1.Permits (duplicate 0 0 ⟨⟨1⟩, 0, 0⟩) :=
    permits_call.mpr ⟨countingArena, arena?_counting, List.nil_subperm, hrange⟩
  have hx : (start.run counting).1.issues (duplicate 0 0 ⟨⟨1⟩, 0, 0⟩) 0 = [⟨⟨1⟩, 2, 0⟩] := by cbv
  have hy : ((start.run counting).1.after (duplicate 0 0 ⟨⟨1⟩, 0, 0⟩)).issues
      (duplicate 0 0 ⟨⟨1⟩, 1, 0⟩) 0 = [⟨⟨1⟩, 3, 0⟩] := by cbv
  obtain ⟨_, b, _, hb, ⟨alikeX, alikeY⟩, ⟨compare, _⟩, _⟩ :=
    counting_reachable.copies_indiscernible arena?_counting arena?_counting (by decide +kernel)
      (by decide +kernel) hp (hx ▸ List.mem_singleton_self _) (hy ▸ List.mem_singleton_self _)
  exact ⟨hp, b, hb, alikeX.document, alikeY.document, compare.atLeast⟩

end World

end ValueHeap
