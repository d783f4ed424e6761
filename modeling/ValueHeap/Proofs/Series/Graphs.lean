import ValueHeap.Proofs.Series.Values

/-!
# The strokes of collections and copies

A collection empties slots and takes the references that their values held; a copy fills slots, and
empties them again when one is refused. Both are told of at their end, with the number of the slots.

* `Gathering`: what a collection is made of until its end; `Collecting`: the whole of it;
  **`reclaim_echoes`**, **`sweep_relays`**;
* `CopyFilling`, `CopyWiring`: the two halves of a copy; `Copying`: the whole of it;
  **`copyTo_relays`**.
-/

namespace ValueHeap

open Arena

namespace Arena

open Outcome

variable {a b : Arena} {t : Tracer} {m : Multiset Slot} {n : Nat}

/-! ## 1. Collections -/

/-- **What a collection is made of** until its end: of the references `m` it leaves `m'` on the
    move, and it tells of `n` slots that it empties. -/
structure Gathering (P : Stroke → Prop) (m m' : Multiset Slot) (n : Nat) (log : List Stroke) :
    Prop where
  moves : Moves P m m' 0 0 log
  told : (heard log).length = n

section Gathering

variable {P Q : Stroke → Prop} {m₁ m' : Multiset Slot} {n' : Nat} {log more : List Stroke}

theorem gathering_nil (h : m' ≤ m) : Gathering P m m' 0 [] := ⟨.nil h, rfl⟩

/-- What the first part leaves on the move is there for the second. -/
theorem Gathering.append (h : Gathering P m m₁ n log) (h' : Gathering P m₁ m' n' more) :
    Gathering P m m' (n + n') (log ++ more) where
  moves := h.moves.append h'.moves
  told := by rw [heard_append, List.length_append, h.told, h'.told]

theorem Gathering.mono (h : Gathering P m m' n log) (hPQ : ∀ s, P s → Q s) :
    Gathering Q m m' n log := ⟨h.moves.mono hPQ, h.told⟩

theorem Gathering.weaken (h : Gathering P m m' n log) (hm : m ≤ m₁) :
    Gathering P m₁ m' n log := ⟨h.moves.weaken hm le_rfl, h.told⟩

theorem Gathering.frame (h : Gathering P m m' n log) (f : Multiset Slot) :
    Gathering P (m + f) (m' + f) n log := ⟨h.moves.frame f, h.told⟩

end Gathering

/-- A count is taken down without a word. -/
theorem unlink_echoes (a : Arena) (t : Tracer) (i : Slot) :
    Echoes (Gathering Stroke.Gathers {i} 0 0) a t (a.unlink i) ((a.hearing t).unlink i) := by
  rw [unlink_hearing]
  cases ho : a.occupant? i with
  | none =>
    unfold unlink
    rw [ho]
    exact .refl a t (gathering_nil (Multiset.zero_le _))
  | some o =>
    exact (Stroked.unlinked (count?_of_occupant? ho)).echoes
      ⟨Moves.single (s := .unlinked i o.count) trivial le_rfl, rfl⟩ rfl

theorem unlinkAll_echoes (children pending : List Slot) (a : Arena) (t : Tracer) :
    ((a.hearing t).unlinkAll children pending).2 = (a.unlinkAll children pending).2 ∧
      Echoes (Gathering Stroke.Gathers children 0 0) a t (a.unlinkAll children pending).1
        ((a.hearing t).unlinkAll children pending).1 := by
  induction children generalizing a t pending with
  | nil => exact ⟨rfl, .refl a t (gathering_nil le_rfl)⟩
  | cons c children ih =>
    unfold unlinkAll
    rw [unlink_hearing]
    dsimp only
    rw [show ((a.unlink c).hearing t).count? c = (a.unlink c).count? c from rfl]
    refine ⟨(ih _ (a.unlink c) t).1, ?_⟩
    have hone := unlink_echoes a t c
    rw [unlink_hearing] at hone
    refine hone.trans (fun x => (x.unlinkAll children _).1) (fun u => (ih _ (a.unlink c) u).2)
      fun log more h h' => ?_
    exact ((h.frame children).append (h'.weaken (zero_add (children : Multiset Slot)).ge))

/-- A slot that is emptied sets the references of its value moving. -/
theorem freed_echoes {i : Slot} {p : Payload} (t : Tracer) (h : a.free? i = some (p, b)) :
    Echoes (Gathering Stroke.Empties 0 p.children 1) a t b (b.hearing (t.note (.free i p.kind))) :=
  (Stroked.emptied h).echoes ⟨Moves.single (s := .emptied i p) trivial le_rfl, rfl⟩ rfl

/-- All references of the values that are emptied go on the move. -/
theorem freeAll_echoes (is : List Slot) (a : Arena) (t : Tracer) :
    ((a.hearing t).freeAll is).1 = (a.freeAll is).1 ∧
      Echoes (Gathering Stroke.Empties 0 ((a.freeAll is).1.flatMap Payload.children)
        (a.freeAll is).1.length) a t (a.freeAll is).2 ((a.hearing t).freeAll is).2 := by
  induction is generalizing a t with
  | nil => exact ⟨rfl, .refl a t (gathering_nil le_rfl)⟩
  | cons i is ih =>
    unfold freeAll
    rw [free?_hearing]
    cases hf : a.free? i with
    | none => exact ih a t
    | some q =>
      obtain ⟨p, b⟩ := q
      refine ⟨congrArg (p :: ·) (ih b _).1, (freed_echoes t hf).trans (fun x => (x.freeAll is).2)
        (fun u => (ih b u).2) fun log more h h' => ?_⟩
      have hall := h.append ((h'.frame p.children).weaken (zero_add _).le)
      rwa [add_comm, Multiset.coe_add, Nat.add_comm 1] at hall

/-- **What a collection is made of.** -/
structure Collecting (log : List Stroke) : Prop where
  phrase : Phrase 0 log
  clears : ∀ s ∈ log, s.Clears

/-- A collection that ends in a fault. -/
theorem collecting_fault {log : List Stroke} (h : Gathering Stroke.Gathers 0 0 n log) :
    Collecting log where
  phrase := .discarding (fun s hs => (h.moves.each s hs).discards) h.moves.solvent
  clears s hs := (h.moves.each s hs).discards.clears

/-- At its end a collection tells of the slots that it emptied. -/
theorem collecting_done {log more : List Stroke} (h : Gathering Stroke.Gathers 0 0 n log)
    (hmore : more = [] ∨ more = [.recounted]) (live : Nat) :
    Collecting (log ++ more ++ [.collected n live]) := by
  have hd : ∀ s ∈ log ++ more, s.Discards := by
    refine List.forall_mem_append.mpr ⟨fun s hs => (h.moves.each s hs).discards, ?_⟩
    obtain rfl | rfl := hmore
    · exact List.forall_mem_nil _
    · exact List.forall_mem_singleton.mpr trivial
  have hsolvent : Solvent 0 more 0 := by
    obtain rfl | rfl := hmore
    · exact .refl 0
    · exact .single (s := .recounted) le_rfl
  have hn : n = (heard (log ++ more)).length := by
    rw [heard_append, List.length_append, h.told]
    obtain rfl | rfl := hmore <;> rfl
  refine ⟨?_, List.forall_mem_append.mpr
    ⟨fun s hs => (hd s hs).clears, List.forall_mem_singleton.mpr trivial⟩⟩
  rw [hn]
  exact .collection hd (h.moves.solvent.trans hsolvent)

/-- **A round of the cascade** empties a slot and takes the references that its value held. -/
theorem cascade_echoes (freed : Nat) (pending : List Slot) (a : Arena) (t : Tracer) :
    ((a.hearing t).cascade freed pending).1 = (a.cascade freed pending).1 ∧
      Echoes (fun log => ∃ n, Gathering Stroke.Gathers 0 0 n log ∧
        (a.cascade freed pending).1 = freed + n) a t
        (a.cascade freed pending).2 ((a.hearing t).cascade freed pending).2 := by
  fun_induction cascade a freed pending generalizing t with
  | case1 a freed =>
    rw [cascade]
    exact ⟨rfl, .refl a t ⟨0, gathering_nil le_rfl, rfl⟩⟩
  | case2 a freed i pending hn ih =>
    rw [cascade_vacant (by rw [free?_hearing, hn]; rfl)]
    exact ih t
  | case3 a freed i pending p b hf ih =>
    have hf' : (a.hearing t).free? i = some (p, b.hearing (t.note (.free i p.kind))) := by
      rw [free?_hearing, hf]
      rfl
    rw [cascade_emptied hf']
    obtain ⟨hp, hu⟩ := unlinkAll_echoes p.children pending b (t.note (.free i p.kind))
    have hround : Echoes (Gathering Stroke.Gathers 0 0 1) a t _ _ := (freed_echoes t hf).trans
      (fun x => (x.unlinkAll p.children pending).1)
      (fun u => (unlinkAll_echoes p.children pending b u).2) fun _ _ h =>
      (h.mono fun _ => Stroke.Empties.gathers).append
    rw [hp]
    obtain ⟨log, _, _, e⟩ := hu
    rw [e]
    refine ⟨(ih _).1, ?_⟩
    rw [← e]
    refine hround.trans (fun x => (x.cascade _ _).2) (fun u => (ih u).2) ?_
    rintro log more h ⟨n, h', e⟩
    exact ⟨1 + n, h.append h', by rw [e, Nat.add_assoc]⟩

/-- What a collection notes at its end is noted under any tracer. -/
theorem collect_echoes {K L : List Stroke → Prop} (freed : Nat) {b' : Arena} (h : Echoes K a t b b')
    (hL : ∀ log live, K log → L (log ++ [.collected freed live])) :
    Echoes L a t (b.note (.collect freed b.live)) (b'.note (.collect freed b'.live)) :=
  h.trans (N := fun log => ∃ live, log = [.collected freed live])
    (fun x => x.note (.collect freed x.live))
    (fun _ => (Stroked.collected freed).echoes ⟨_, rfl⟩ rfl) fun log _ hk ⟨live, e⟩ =>
      e ▸ hL log live hk

/-- **Reclaiming** neither fills a slot nor starts the count of containers anew. -/
theorem reclaim_echoes (a : Arena) (t : Tracer) :
    (a.hearing t).reclaim.1 = a.reclaim.1 ∧
      Echoes (fun log => Collecting log ∧ ∀ s ∈ log, s.Steady) a t a.reclaim.2
        (a.hearing t).reclaim.2 := by
  obtain ⟨hn, h⟩ := cascade_echoes 0 a.unreferenced.reverse a t
  unfold reclaim
  rw [show (a.hearing t).unreferenced = a.unreferenced from rfl]
  refine ⟨hn, ?_⟩
  dsimp only
  rw [hn]
  refine collect_echoes _ h ?_
  rintro log live ⟨n, hg, e⟩
  rw [Nat.zero_add] at e
  have hdone := collecting_done hg (.inl rfl) live
  rw [List.append_nil, ← e] at hdone
  exact ⟨hdone, List.forall_mem_append.mpr
    ⟨fun s hs => (hg.moves.each s hs).steady, List.forall_mem_singleton.mpr trivial⟩⟩

/-- References to values that stay are taken; those to values that went are let go. -/
theorem settle_relays {slots : Nat} {staying : List Slot} (orphaned : List Slot) (a : Arena)
    (t : Tracer) :
    Relays (fun _ => Gathering Stroke.Gathers orphaned 0 0) a t (a.settle slots staying orphaned)
      ((a.hearing t).settle slots staying orphaned) := by
  induction orphaned generalizing a t with
  | nil => exact relays_reading _ (gathering_nil le_rfl)
  | cons c orphaned ih =>
    have hle : (orphaned : Multiset Slot) ≤ (c :: orphaned : List Slot) :=
      Multiset.coe_le.mpr (List.sublist_cons_self c orphaned).subperm
    unfold settle
    split
    · exact relays_reading _ (gathering_nil (Multiset.zero_le _))
    · split
      · refine Relays.after (fun x => x.settle slots staying orphaned) (unlink_echoes a t c)
          (ih (a.unlink c)) fun log x more h h' => ?_
        exact (h.frame orphaned).append (h'.weaken (zero_add (orphaned : Multiset Slot)).ge)
      · exact (ih a t).mono fun _ _ h => h.weaken hle

/-- **Sweeping** fills no slot. -/
theorem sweep_relays (a : Arena) (t : Tracer) (roots : List Handle) :
    Relays (fun _ => Collecting) a t (a.sweep roots) ((a.hearing t).sweep roots) := by
  unfold sweep
  rw [show (a.hearing t).reachable roots = a.reachable roots from rfl]
  dsimp only
  rw [show (a.hearing t).cells = a.cells from rfl]
  generalize (List.range a.cells.size).filter (fun i => !(a.reachable roots).contains i) = looked
  obtain ⟨hgone, h⟩ := freeAll_echoes looked a t
  rw [hgone]
  have hall : Relays (fun _ => Gathering Stroke.Gathers 0 0 (a.freeAll looked).1.length) a t _ _ :=
    Relays.after (fun x => x.settle a.cells.size (a.reachable roots)
      ((a.freeAll looked).1.flatMap Payload.children)) h (fun u => settle_relays _ _ u)
      fun _ _ _ h => (h.mono fun _ => Stroke.Empties.gathers).append
  refine hall.andThen (M := fun _ _ log => ∃ live,
    log = [.recounted] ++ [.collected (a.freeAll looked).1.length live]) (fun _ b u => ?_) ?_ ?_
  · have hr : Echoes (fun log => log = [.recounted]) b u { b with containersBuilt := 0 }
        { b.hearing u with containersBuilt := 0 } := Stroked.recounted.echoes rfl rfl
    exact relays_of_echoes (collect_echoes _ hr fun log live e => ⟨live, by rw [e]⟩)
  · rintro _ log _ more hg ⟨live, rfl⟩
    rw [← List.append_assoc]
    exact collecting_done hg (.inr rfl) live
  · exact fun _ _ => collecting_fault

/-! ## 2. Copies -/

/-- What filling the slots of a copy is made of, after `n` of them: with an answer nothing but slots
    that are filled. -/
def CopyFilling (n : Nat) (x : Except Failure (List (Slot × Slot))) (log : List Stroke) : Prop :=
  match x with
  | .ok built => (∀ s ∈ log, s.Fills) ∧ built.length = n + log.length
  | .error _ => ∀ s ∈ log, s.Copies

theorem copyFilling_cons {i : Slot} {p : Payload} {log : List Stroke}
    {x : Except Failure (List (Slot × Slot))} (h : CopyFilling (n + 1) x log) :
    CopyFilling n x ([.filled i p 0] ++ log) := by
  cases x with
  | error e => exact List.forall_mem_cons.mpr ⟨trivial, h⟩
  | ok built =>
    refine ⟨List.forall_mem_cons.mpr ⟨trivial, h.1⟩, ?_⟩
    rw [h.2, List.length_append, List.length_singleton, Nat.add_assoc]

/-- **The slots of a copy** are filled one after the other, or emptied again. -/
theorem fillSlots_relays (plan : List (Slot × Payload)) (built : List (Slot × Slot)) (a : Arena)
    (t : Tracer) : Relays (CopyFilling built.length) a t (a.fillSlots plan built)
      ((a.hearing t).fillSlots plan built) := by
  induction plan generalizing a t built with
  | nil => exact relays_reading _ ⟨List.forall_mem_nil _, rfl⟩
  | cons q plan ih =>
    obtain ⟨source, p⟩ := q
    -- a slot that is refused empties those that have been filled
    have hslot : Relays (fun x log => match x with
        | .ok i => log = [.filled i p 0]
        | .error _ => ∀ s ∈ log, s.Copies) a t
        ((a.allocate p 0).onError fun b => (b.freeAll (built.map (·.2))).2)
        (((a.hearing t).allocate p 0).onError fun b => (b.freeAll (built.map (·.2))).2) := by
      refine (allocate_relays a t p 0).onError (M := fun log => ∀ s ∈ log, s.Empties)
        (fun b u => (freeAll_echoes _ b u).2.mono fun _ h => h.moves.each)
        (fun e log more h h' => ?_) fun x log _ h => ?_
      · unfold Only at h
        subst h
        exact fun s hs => (h' s hs).copies
      · unfold Only at h
        subst h
        cases x with
        | error e => exact List.forall_mem_nil _
        | ok i => rfl
    refine hslot.andThen (fun i b u => ih (built ++ [(source, i)]) b u) ?_ fun _ _ h => h
    rintro i log x more rfl h
    rw [List.length_append] at h
    exact copyFilling_cons h

theorem retainAll_relays (is : List Slot) (a : Arena) (t : Tracer) :
    Relays Retaining a t (a.retainAll is) ((a.hearing t).retainAll is) := by
  induction is generalizing a t with
  | nil => exact relays_reading _ (retaining_nil _)
  | cons i is ih =>
    exact retaining_andThen ((retain_relays a t i).mono fun _ _ => retaining_only)
      fun _ b u => ih b u

/-- References are renamed and then counted; no value changes its size. -/
theorem rewire_relays (rename : Slot → Slot) (is : List Slot) (a : Arena) (t : Tracer) :
    Relays (fun _ log => ∀ s ∈ log, s.Wires) a t (a.rewire rename is)
      ((a.hearing t).rewire rename is) := by
  induction is generalizing a t with
  | nil => exact relays_reading _ (List.forall_mem_nil _)
  | cons i is ih =>
    unfold rewire
    rw [follow_hearing]
    cases hp : a.payload? i with
    | none =>
      obtain ⟨f, hf⟩ := follow_eq_error hp
      rw [hf]
      exact relays_reading _ (List.forall_mem_nil _)
    | some p =>
      rw [follow_eq_ok hp]
      have hone : Echoes (fun log => ∀ s ∈ log, s.Wires) a t (a.setPayload i (p.mapSlots rename))
          ((a.hearing t).setPayload i (p.mapSlots rename)) :=
        (Stroked.rewritten hp (p.kind_mapSlots rename).symm).echoes
          (List.forall_mem_singleton.mpr (p.footprint_mapSlots rename).symm) rfl
      have hall : Relays (fun _ log => ∀ s ∈ log, s.Wires) a t _ _ :=
        Relays.after (fun x => x.retainAll (p.mapSlots rename).children) hone
          (fun u => retainAll_relays _ _ u) fun log x more h h' =>
            List.forall_mem_append.mpr ⟨h, fun s hs => (h' s hs).wires⟩
      exact hall.andThen (fun _ b u => ih b u)
        (fun _ _ _ _ h h' => List.forall_mem_append.mpr ⟨h, h'⟩) fun _ _ h => h

/-- What finishing a copy of `n` slots is made of: at its end the copy is told of. -/
def CopyWiring (n : Nat) (crossing : Bool) (x : Except Failure Handle) (log : List Stroke) : Prop :=
  match x with
  | .ok _ => ∃ more, log = more ++ [.duplicated n crossing] ∧ ∀ s ∈ more, s.Wires
  | .error _ => ∀ s ∈ log, s.Wires

theorem copyWiring_append {crossing : Bool} {x : Except Failure Handle} {log more : List Stroke}
    (hw : ∀ s ∈ log, s.Wires) (h : CopyWiring n crossing x more) :
    CopyWiring n crossing x (log ++ more) := by
  cases x with
  | error e => exact List.forall_mem_append.mpr ⟨hw, h⟩
  | ok y =>
    obtain ⟨rest, rfl, hr⟩ := h
    exact ⟨log ++ rest, (List.append_assoc ..).symm, List.forall_mem_append.mpr ⟨hw, hr⟩⟩

/-- At its end a copy is told of, unless there is nothing to copy. -/
theorem wireUp_relays (a : Arena) (t : Tracer) (built : List (Slot × Slot)) (crossing : Bool) :
    Relays (CopyWiring built.length crossing) a t (a.wireUp built crossing)
      ((a.hearing t).wireUp built crossing) := by
  refine (rewire_relays _ _ a t).andThen (M := fun _ => CopyWiring built.length crossing)
    (fun _ b u => ?_) (fun _ _ _ _ => copyWiring_append) fun _ _ h => h
  cases built with
  | nil => exact relays_reading _ (List.forall_mem_nil _)
  | cons q rest =>
    refine (retain_relays b u q.2).andThen (M := fun _ => CopyWiring (q :: rest).length crossing)
      (fun _ c v => ?_) (fun _ log _ _ h => ?_) fun _ log h => ?_
    · exact relays_of_echoes ((Stroked.duplicated (a := c) (q :: rest).length crossing).echoes
        ⟨[], rfl, List.forall_mem_nil _⟩ rfl)
    · exact copyWiring_append fun s hs => (retaining_only h s hs).wires
    · exact fun s hs => (retaining_only h s hs).wires

/-- **What a copy is made of**: it changes the size of no value. -/
structure Copying (log : List Stroke) : Prop where
  phrase : Phrase 0 log
  level : ∀ s ∈ log, s.Level
  steady : ∀ s ∈ log, s.Steady

/-- A copy that is not finished. -/
theorem copying_part {log : List Stroke} (h : ∀ s ∈ log, s.Copies) : Copying log where
  phrase := .copying h
  level s hs := (h s hs).level
  steady s hs := (h s hs).steady

theorem copying_nil : Copying [] := copying_part (List.forall_mem_nil _)

/-- A copy that is finished tells how many slots it filled. -/
theorem copying_done {log more : List Stroke} {crossing : Bool} (hf : ∀ s ∈ log, s.Fills)
    (hw : ∀ s ∈ more, s.Wires) : Copying (log ++ more ++ [.duplicated log.length crossing]) := by
  have hc : Copying (log ++ more) := copying_part (List.forall_mem_append.mpr
    ⟨fun s hs => (hf s hs).copies, fun s hs => (hw s hs).copies⟩)
  exact ⟨.copy hf hw,
    List.forall_mem_append.mpr ⟨hc.level, List.forall_mem_singleton.mpr ⟨rfl, rfl⟩⟩,
    List.forall_mem_append.mpr ⟨hc.steady, List.forall_mem_singleton.mpr trivial⟩⟩

/-- **A copy is the same under any tracer of the target.** -/
theorem copyTo_relays (a : Arena) (h : Handle) (target : Arena) (t : Tracer) (crossing : Bool) :
    Relays (fun _ => Copying) target t (a.copyTo h target crossing)
      (a.copyTo h (target.hearing t) crossing) := by
  unfold copyTo
  cases a.lookup h with
  | error e => exact relays_reading _ copying_nil
  | ok o =>
    dsimp only
    cases a.copyParts h.slot with
    | error f => exact relays_reading _ copying_nil
    | ok plan =>
      refine (fillSlots_relays plan [] target t).andThen
        (fun built b u => wireUp_relays b u built crossing) ?_ fun _ _ => copying_part
      rintro built log x more ⟨hf, hl⟩ hw
      rw [hl, List.length_nil, Nat.zero_add] at hw
      cases x with
      | error e =>
        exact copying_part (List.forall_mem_append.mpr
          ⟨fun s hs => (hf s hs).copies, fun s hs => (hw s hs).copies⟩)
      | ok y =>
        obtain ⟨rest, rfl, hr⟩ := hw
        rw [← List.append_assoc]
        exact copying_done hf hr

theorem copy_relays (a : Arena) (t : Tracer) (h : Handle) :
    Relays (fun _ => Copying) a t (a.copy h) ((a.hearing t).copy h) := by
  have e : (a.hearing t).copy h = a.copyTo h (a.hearing t) false := by
    unfold copy copyTo
    rw [lookup_hearing, copyParts_hearing]
  rw [e]
  exact copyTo_relays a h a t false

end Arena

end ValueHeap
