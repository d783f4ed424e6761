import ValueHeap.Proofs.Sizes

/-!
# Listeners: operations as series of strokes

Every operation is a series of strokes, and nothing that it does depends on the tracer. So the same
operation, on the same arena with another tracer, answers the same and leaves the same arena, and
the other tracer is told of exactly the strokes that the operation is made of. What a recorder hears
of an operation is therefore what happens in any arena.

Here is what an operation has to say of its strokes, and how what two operations say is put
together; what each operation says is in the modules under `Series`.

* `Arena.hearing`: an arena with another tracer;
* `Echoes K a t b b'`: a log with `K` leads from `a` to `b`, and the tracer `t` hears it;
* `Outcome.Relays`: what an operation draws and what another tracer hears of it; `Relays.andThen`,
  `Relays.onError`: operations in sequence;
* `Moves`: what a log does to the references on the move and to sizes; `Moving`: the same by the
  answer.
-/

namespace ValueHeap

open Arena

namespace Arena

variable {α β : Type} {a b c : Arena} {s : Stroke} {t : Tracer}

/-! ## 1. The same arena with another tracer -/

/-- The arena with another tracer. -/
def hearing (a : Arena) (t : Tracer) : Arena := { a with tracer := t }

section Readings

variable (a : Arena) (t : Tracer)

theorem occupant?_hearing (i : Slot) : (a.hearing t).occupant? i = a.occupant? i := rfl

theorem lookup_hearing (h : Handle) : (a.hearing t).lookup h = a.lookup h := rfl

theorem follow_hearing (i : Slot) : (a.hearing t).follow i = a.follow i := rfl

theorem read_hearing (wanted : Kind) (pick : Payload → Option α) (h : Handle) :
    (a.hearing t).read wanted pick h = a.read wanted pick h := rfl

theorem readSequence_hearing (h : Handle) :
    (a.hearing t).readSequence h = a.readSequence h := rfl

theorem firstError?_hearing (hs : List Handle) :
    (a.hearing t).firstError? hs = a.firstError? hs := rfl

theorem copyParts_hearing (root : Slot) : (a.hearing t).copyParts root = a.copyParts root := rfl

theorem exportSlot_hearing (levels : Nat) :
    (a.hearing t).exportSlot levels = a.exportSlot levels := by
  induction levels with
  | zero => rfl
  | succ levels ih =>
    funext i
    unfold exportSlot
    rw [ih, follow_hearing]

theorem exportDocument_hearing (h : Handle) :
    (a.hearing t).exportDocument h = a.exportDocument h := by
  unfold exportDocument
  rw [lookup_hearing, exportSlot_hearing]

theorem unlink_hearing (i : Slot) : (a.hearing t).unlink i = (a.unlink i).hearing t := by
  unfold unlink
  rw [occupant?_hearing]
  cases a.occupant? i <;> rfl

/-- A slot is emptied or was empty, alike under any tracer. -/
theorem free?_hearing (i : Slot) : (a.hearing t).free? i =
    (a.free? i).map fun q => (q.1, q.2.hearing (t.note (.free i q.1.kind))) := by
  unfold free?
  rw [occupant?_hearing]
  cases a.occupant? i <;> rfl

end Readings

/-! ## 2. What another tracer hears -/

/-- **A log with `K` leads from `a` to `b`**, and under the tracer `t` to `b'`: the same arena,
    whose tracer is told of the log. -/
def Echoes (K : List Stroke → Prop) (a : Arena) (t : Tracer) (b b' : Arena) : Prop :=
  ∃ log, K log ∧ Drawn a log b ∧ b' = b.hearing (t.noteAll (heard log))

section Echoes

variable {K L N : List Stroke → Prop} {b' c' : Arena}

/-- What does nothing. -/
theorem Echoes.refl (a : Arena) (t : Tracer) (h : K []) : Echoes K a t a (a.hearing t) :=
  ⟨[], h, .nil, rfl⟩

/-- What does the same to the arena whatever its tracer, one thing after the other. -/
theorem Echoes.trans (f : Arena → Arena) (h : Echoes K a t b b')
    (n : ∀ u, Echoes N b u c (f (b.hearing u)))
    (hL : ∀ log more, K log → N more → L (log ++ more)) :
    Echoes L a t c (f b') := by
  obtain ⟨log, hk, hd, rfl⟩ := h
  obtain ⟨more, hn, hm, e⟩ := n (t.noteAll (heard log))
  exact ⟨log ++ more, hL log more hk hn, hd.trans hm,
    by rw [e, heard_append, Tracer.noteAll_append]⟩

theorem Echoes.mono (h : Echoes K a t b b') (hKL : ∀ log, K log → L log) : Echoes L a t b b' := by
  obtain ⟨log, hk, hd, e⟩ := h
  exact ⟨log, hKL log hk, hd, e⟩

/-- A stroke by itself. -/
theorem Stroked.echoes (h : Stroked a s b) (hK : K [s])
    (e : b' = b.hearing (t.noteAll s.events)) : Echoes K a t b b' :=
  ⟨[s], hK, h.drawn, by rw [e, heard_cons, heard, List.flatMap_nil, List.append_nil]⟩

end Echoes

namespace Outcome

/-- **What an operation is made of**: a log with `K`, by the answer. Only a counter that leaves its
    range leaves something in the tracker that no stroke accounts for. Under another tracer the
    operation answers the same and leaves the same arena, and the tracer is told of the log. -/
def Relays (K : Except Failure α → List Stroke → Prop) (a : Arena) (t : Tracer)
    (r r' : Outcome α) : Prop :=
  r'.answer = r.answer ∧ ∃ log tracker, K r.answer log ∧
    Drawn a log { r.arena with tracker := tracker } ∧
    (r.fault? ≠ some .counterOverflow → tracker = r.arena.tracker) ∧
    r'.arena = r.arena.hearing (t.noteAll (heard log))

variable {K L : Except Failure α → List Stroke → Prop} {N : Except Failure β → List Stroke → Prop}
  {r r' : Outcome α}

/-- Unless a counter leaves its range, the log leads to the arena that the operation leaves. -/
theorem Relays.drawn (h : Relays K a t r r') (hn : r.fault? ≠ some .counterOverflow) :
    ∃ log, K r.answer log ∧ Drawn a log r.arena := by
  obtain ⟨_, log, tracker, hk, hd, ht, _⟩ := h
  cases ht hn
  exact ⟨log, hk, hd⟩

theorem relays_of_echoes {b' : Arena} {x : Except Failure α} (h : Echoes (K x) a t b b') :
    Relays K a t ⟨x, b⟩ ⟨x, b'⟩ := by
  obtain ⟨log, hk, hd, e⟩ := h
  exact ⟨rfl, log, b.tracker, hk, hd, fun _ => rfl, e⟩

/-- What only reads leaves the arena as it is. -/
theorem relays_reading (x : Except Failure α) (h : K x []) :
    Relays K a t ⟨x, a⟩ ⟨x, a.hearing t⟩ := relays_of_echoes (.refl a t h)

theorem relays_ofAnswer (x : Except HeapError α) (h : ∀ y, K y []) :
    Relays K a t (ofAnswer x a) (ofAnswer x (a.hearing t)) := by
  cases x <;> exact relays_reading _ (h _)

theorem relays_ofAsk (x : Except Fault α) (h : ∀ y, K y []) :
    Relays K a t (ofAsk x a) (ofAsk x (a.hearing t)) := by
  cases x <;> exact relays_reading _ (h _)

theorem Relays.mono (h : Relays K a t r r') (hKL : ∀ x log, K x log → L x log) :
    Relays L a t r r' := by
  obtain ⟨hx, log, u, hk, rest⟩ := h
  exact ⟨hx, log, u, hKL _ _ hk, rest⟩

/-- An operation after what another tracer has heard. -/
theorem Relays.after {M : List Stroke → Prop} {b' : Arena} (f : Arena → Outcome α)
    (h : Echoes M a t b b') (n : ∀ u, Relays K b u r (f (b.hearing u)))
    (hL : ∀ log x more, M log → K x more → L x (log ++ more)) : Relays L a t r (f b') := by
  obtain ⟨log, hm, hd, rfl⟩ := h
  obtain ⟨hx, more, u, hk, hd', hu, e⟩ := n (t.noteAll (heard log))
  exact ⟨hx, log ++ more, u, hL _ _ _ hm hk, hd.trans hd', hu,
    by rw [e, heard_append, Tracer.noteAll_append]⟩

/-- **Operations in sequence**: the logs follow each other. -/
theorem Relays.andThen {M : α → Except Failure β → List Stroke → Prop}
    {next next' : α → Arena → Outcome β} (h : Relays K a t r r')
    (n : ∀ x b u, Relays (M x) b u (next x b) (next' x (b.hearing u)))
    (hok : ∀ x log y more, K (.ok x) log → M x y more → N y (log ++ more))
    (herror : ∀ e log, K (.error e) log → N (.error e) log) :
    Relays N a t (r.andThen next) (r'.andThen next') := by
  obtain ⟨(f | f) | x, b⟩ := r <;> obtain ⟨answer, b'⟩ := r' <;>
    obtain ⟨rfl, log, u, hk, hd, hu, e⟩ := h
  · exact ⟨rfl, log, u, herror _ _ hk, hd, hu, e⟩
  · exact ⟨rfl, log, u, herror _ _ hk, hd, hu, e⟩
  · cases hu fun k => by cases k
    cases e
    exact Relays.after (next' x) ⟨log, hk, hd, rfl⟩ (n x b) fun log y more => hok x log y more

theorem Relays.onError {M : List Stroke → Prop} {clean : Arena → Arena} (h : Relays K a t r r')
    (n : ∀ b u, Echoes M b u (clean b) (clean (b.hearing u)))
    (herror : ∀ e log more,
      K (.error (.error e)) log → M more → L (.error (.error e)) (log ++ more))
    (hrest : ∀ x log, (∀ e, x ≠ .error (.error e)) → K x log → L x log) :
    Relays L a t (r.onError clean) (r'.onError clean) := by
  obtain ⟨(e | f) | x, b⟩ := r <;> obtain ⟨answer, b'⟩ := r' <;>
    obtain ⟨rfl, log, u, hk, hd, hu, e⟩ := h
  · cases hu fun k => by cases k
    exact relays_of_echoes
      (Echoes.trans clean ⟨log, hk, hd, e⟩ (n b) fun log more => herror _ log more)
  · exact ⟨rfl, log, u, hrest _ _ (fun _ k => by cases k) hk, hd, hu, e⟩
  · exact ⟨rfl, log, u, hrest _ _ (fun _ k => by cases k) hk, hd, hu, e⟩

/-- Another form of the answer. -/
theorem Relays.map {f : α → β} (h : Relays K a t r r')
    (hN : ∀ log, K r.answer log → N (r.answer.map f) log) :
    Relays N a t (r.map f) (r'.map f) := by
  obtain ⟨(e | e) | x, b⟩ := r <;> obtain ⟨answer, b'⟩ := r' <;>
    obtain ⟨rfl, log, u, hk, hd, hu, e⟩ := h
  · exact ⟨rfl, log, u, hN _ hk, hd, hu, e⟩
  · exact ⟨rfl, log, u, hN _ hk, hd, hu, e⟩
  · exact ⟨rfl, log, u, hN _ hk, hd, hu, e⟩

end Outcome

end Arena

/-! ## 3. References on the move -/

/-- **What a log does** whose strokes all have `P`: of the references `m` on the move it leaves `m'`
    there and never takes what is not, and it lets values grow by `g` and shrink by `k` at most. -/
structure Moves (P : Stroke → Prop) (m m' : Multiset Slot) (g k : Nat) (log : List Stroke) :
    Prop where
  each : ∀ s ∈ log, P s
  solvent : Solvent m log m'
  growth_le : (log.map Stroke.growth).sum ≤ g
  shrinkage_le : (log.map Stroke.shrinkage).sum ≤ k

namespace Moves

variable {P Q : Stroke → Prop} {m m' n n' : Multiset Slot} {g k g' k' : Nat} {s : Stroke}
  {log more : List Stroke}

/-- What is on the move may stay there or be let go. -/
theorem nil (h : m' ≤ m) : Moves P m m' g k [] :=
  ⟨List.forall_mem_nil P, .nil h, Nat.zero_le g, Nat.zero_le k⟩

theorem single (hs : P s) (h : s.spent + m' ≤ m + s.gained) :
    Moves P m m' s.growth s.shrinkage [s] :=
  ⟨List.forall_mem_singleton.mpr hs, .single h, by simp, by simp⟩

theorem append (h : Moves P m n g k log) (h' : Moves P n m' g' k' more) :
    Moves P m m' (g + g') (k + k') (log ++ more) where
  each := List.forall_mem_append.mpr ⟨h.each, h'.each⟩
  solvent := h.solvent.trans h'.solvent
  growth_le := by
    rw [List.map_append, List.sum_append]
    exact Nat.add_le_add h.growth_le h'.growth_le
  shrinkage_le := by
    rw [List.map_append, List.sum_append]
    exact Nat.add_le_add h.shrinkage_le h'.shrinkage_le

theorem mono (h : Moves P m m' g k log) (hPQ : ∀ s, P s → Q s) : Moves Q m m' g k log :=
  ⟨fun s hs => hPQ s (h.each s hs), h.solvent, h.growth_le, h.shrinkage_le⟩

/-- More may be on the move at first, and less at the end. -/
theorem weaken (h : Moves P m m' g k log) (hm : m ≤ n) (hm' : n' ≤ m') :
    Moves P n n' g k log :=
  ⟨h.each, (h.solvent.mono_left hm).mono_right hm', h.growth_le, h.shrinkage_le⟩

theorem bound (h : Moves P m m' g k log) (hg : g ≤ g') (hk : k ≤ k') : Moves P m m' g' k' log :=
  ⟨h.each, h.solvent, h.growth_le.trans hg, h.shrinkage_le.trans hk⟩

/-- What else is on the move stays there. -/
theorem frame (h : Moves P m m' g k log) (f : Multiset Slot) :
    Moves P (m + f) (m' + f) g k log :=
  ⟨h.each, h.solvent.frame f, h.growth_le, h.shrinkage_le⟩

/-- Candid strokes by themselves. -/
theorem phrase (h : Moves Stroke.Candid m 0 g k log) : Phrase m log :=
  show Phrase m ([] ++ log) from .candid (List.forall_mem_nil _) h.each h.solvent

end Moves

/-- What is left on the move, by the answer: nothing after a fault. -/
def left {α : Type} (good : α → Multiset Slot) (bad : Multiset Slot) :
    Except Failure α → Multiset Slot
  | .ok x => good x
  | .error (.error _) => bad
  | .error (.fault _) => 0

/-- **What an operation does** that leaves `good` on the move with an answer and `bad` when it is
    refused. -/
def Moving {α : Type} (P : Stroke → Prop) (m : Multiset Slot) (good : α → Multiset Slot)
    (bad : Multiset Slot) (g k : Nat) (x : Except Failure α) (log : List Stroke) : Prop :=
  Moves P m (left good bad x) g k log

namespace Arena

open Outcome

variable {α β : Type} {a b : Arena} {t : Tracer} {P Q : Stroke → Prop}
  {m n bad bad' : Multiset Slot}
  {good : α → Multiset Slot} {g k g' k' : Nat} {r r' : Outcome α}

/-- Operations in sequence that let no value shrink: the second one has what the first one
    leaves. -/
theorem relays_andThen {good' : β → Multiset Slot} {next next' : α → Arena → Outcome β}
    (h : Relays (Moving P m good bad g 0) a t r r')
    (n : ∀ x b u, Relays (Moving P (good x) good' bad g' 0) b u (next x b)
      (next' x (b.hearing u))) :
    Relays (Moving P m good' bad (g + g') 0) a t (r.andThen next) (r'.andThen next') := by
  refine h.andThen n (fun x log y more h h' => Moves.append h h') fun e log h => ?_
  cases e <;> exact Moves.bound h (Nat.le_add_right g g') le_rfl

/-- Cleaning up has what a refusal leaves. -/
theorem relays_onError {clean : Arena → Arena} (h : Relays (Moving P m good bad g k) a t r r')
    (n : ∀ b u, Echoes (Moves P bad bad' 0 0) b u (clean b) (clean (b.hearing u))) :
    Relays (Moving P m good bad' g k) a t (r.onError clean) (r'.onError clean) := by
  refine h.onError n (fun e log more h h' => Moves.append h h') fun x log hx h => ?_
  rcases x with (e | f) | x
  · exact absurd rfl (hx e)
  · exact h
  · exact h

/-- What else is on the move stays there. -/
theorem relays_frame (h : Relays (Moving P m good bad g k) a t r r') (f : Multiset Slot) :
    Relays (Moving P (m + f) (fun x => good x + f) (bad + f) g k) a t r r' := by
  refine h.mono fun x log h => ?_
  rcases x with (e | e) | x
  · exact Moves.frame h f
  · exact (Moves.frame h f).weaken le_rfl (Multiset.zero_le _)
  · exact Moves.frame h f

theorem relays_mono (h : Relays (Moving P m good bad g k) a t r r') (hPQ : ∀ s, P s → Q s)
    (hg : g ≤ g') (hk : k ≤ k') : Relays (Moving Q m good bad g' k') a t r r' :=
  h.mono fun _ _ h => (Moves.mono h hPQ).bound hg hk

end Arena

end ValueHeap
