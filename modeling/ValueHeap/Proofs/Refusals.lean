import ValueHeap.Proofs.Guarantees
import ValueHeap.Proofs.Wire
import ValueHeap.Proofs.Rollback
import ValueHeap.Proofs.Planting

/-!
# What a refusal leaves, in every world a program can reach

1. streams: what is read before the first error is what its bytes were written from, and the error
   tells what is ahead;
2. calls: a refused call gives back the references that it was handed, and does nothing else;
3. copies: a refused copy has emptied all slots that it filled;
4. documents: what is left of a document, built or refused, goes with the next collection once no
   handle to it is held, and nothing else is touched.
-/

namespace ValueHeap

open Arena

namespace World

variable {w : World} {k l : Nat} {a t : Arena}

/-! ## 1. Streams -/

/-- **Reading a stream takes apart what writing puts together**, and nothing else: the integers and
    flags read from some bytes, up to the first error, are those whose bytes they are. -/
theorem Reachable.stream_exact (hw : w.Reachable) (ha : w.arena? k = some a) :
    (∀ bytes : List UInt8,
      a.tracker.acceptsAll (List.replicate bytes.length Payload.footprintUnits.value) →
      ∃ hs ps e b s, a.readAll (.ofBytes bytes) = ⟨hs, .error e, b, s⟩ ∧ s.bytes = bytes ∧
        -- what lies before the cursor are the bytes of the values read, as they are written
        List.Forall₂ b.Denotes hs ps ∧ Encodes ps s.past ∧
        b.writeAll hs .empty = .ok (.ofBytes s.past) ∧
        -- the error is that of what lies behind it
        Malformed s.ahead e ∧ (∀ e', Malformed s.ahead e' → e' = e) ∧
        -- all bytes are read if they are those of some values, which then are the ones read
        (s.ahead = [] ↔ ∃ qs, Encodes qs bytes) ∧ ∀ qs, Encodes qs bytes → qs = ps) ∧
    -- integers and flags are written, and read back from what is written by any arena
    (∀ hs, (∀ h ∈ hs, (∃ n, a.Denotes h (.integer n)) ∨ ∃ flag, a.Denotes h (.bool flag)) →
      ∃ ps bytes, List.Forall₂ a.Denotes hs ps ∧ Encodes ps bytes ∧
        a.writeAll hs .empty = .ok (.ofBytes bytes) ∧
        ∀ u l t, Reachable u → u.arena? l = some t →
          t.tracker.acceptsAll (List.replicate hs.length Payload.footprintUnits.value) →
          ∃ gs b, t.readAll (.ofBytes bytes) =
              ⟨gs, .error (.stream (.unexpectedEnd 1 0)), b, ⟨bytes, []⟩⟩ ∧
            List.Forall₂ b.Denotes gs ps) := by
  have v := (hw.sound.coherent k a ha).vacant
  refine ⟨fun bytes ht => ?_, fun hs hh => ?_⟩
  · obtain ⟨ps, bs, rest, e, rfl, he, hm⟩ := encodes_then_malformed bytes
    -- each value takes a byte or more
    have hlen := he.length_le
    obtain ⟨n, hn⟩ := Nat.exists_eq_add_of_le (show ps.length ≤ (bs ++ rest).length by
      rw [List.length_append]
      omega)
    rw [hn, List.replicate_add] at ht
    obtain ⟨hs, b, hr, hd, _⟩ := readAll_of_encodes v he hm (Tracker.acceptsAll_left ht) []
    refine ⟨hs, ps, e, b, _, hr, rfl, hd, he, writeAll_of_encodes hd he .empty, hm,
      fun e' => hm.unique, ⟨fun h => ?_, ?_⟩, fun qs hq => ?_⟩
    · cases h
      exact ⟨ps, (List.append_nil bs).symm ▸ he⟩
    · intro h
      obtain ⟨qs, hq⟩ := h
      exact (he.split_unique hm hq .ended (List.append_nil _).symm).2.2.symm
    · exact (he.split_unique hm hq .ended (List.append_nil _).symm).1
  · obtain ⟨ps, bytes, hd, he⟩ := encodes_of_denotes (a := a) fun h hm => (hh h hm).elim
      (fun ⟨n, hn⟩ => ⟨_, hn, rfl⟩) fun ⟨flag, hf⟩ => ⟨_, hf, rfl⟩
    refine ⟨ps, bytes, hd, he, writeAll_of_encodes hd he .empty, fun u l t hu hl ht => ?_⟩
    rw [hd.length_eq] at ht
    obtain ⟨gs, b, hr, hg, _⟩ :=
      readAll_of_encodes (hu.sound.coherent l t hl).vacant he .ended ht []
    rw [List.append_nil] at hr
    exact ⟨gs, b, hr, hg⟩

/-- Reading an integer, a flag and a byte that is no tag into `sharing`, and writing its integer
    twice. -/
theorem stream_exact_sharing :
    (∃ hs b s, sharingArena.readAll (.ofBytes [2, 42, 0, 0, 0, 0, 1, 99]) =
        ⟨hs, .error (.stream (.unknownTag 99)), b, s⟩ ∧
      List.Forall₂ b.Denotes hs [.integer 42, .bool true] ∧ s.past = [2, 42, 0, 0, 0, 0, 1]) ∧
    ∃ bytes, sharingArena.writeAll [⟨⟨1⟩, 0, 0⟩, ⟨⟨1⟩, 0, 0⟩] .empty = .ok (.ofBytes bytes) ∧
      ∃ gs b, sharingArena.readAll (.ofBytes bytes) =
          ⟨gs, .error (.stream (.unexpectedEnd 1 0)), b, ⟨bytes, []⟩⟩ ∧
        List.Forall₂ b.Denotes gs [.integer 7, .integer 7] := by
  obtain ⟨hread, hwrite⟩ := sharing_reachable.stream_exact arena?_sharing
  have accepts : ∀ n, sharingArena.tracker.acceptsAll
      (List.replicate n Payload.footprintUnits.value) := fun n => Tracker.acceptsAll_unlimited _
  constructor
  · obtain ⟨hs, ps, e, b, s, hr, hb, hd, he, _, hm, _⟩ :=
      hread [2, 42, 0, 0, 0, 0, 1, 99] (accepts _)
    have he' : Encodes [.integer 42, .bool true] ([2, 42, 0, 0, 0] ++ ([0, 1] ++ [])) :=
      .cons rfl (.cons rfl .nil)
    have hm' : Malformed [99] (.stream (.unknownTag 99)) := .unknownTag (by decide)
    obtain ⟨rfl, hpast, hrest⟩ := he'.split_unique hm' he hm (hb.symm : _ = s.past ++ s.ahead)
    rw [hrest] at hm
    rw [hm'.unique hm] at hr
    exact ⟨hs, b, s, hr, hd, hpast⟩
  · have h7 : sharingArena.Denotes ⟨⟨1⟩, 0, 0⟩ (.integer 7) := rfl
    obtain ⟨ps, bytes, hd, _, hw, hread⟩ := hwrite [⟨⟨1⟩, 0, 0⟩, ⟨⟨1⟩, 0, 0⟩] (by
      rw [List.forall_mem_cons, List.forall_mem_singleton]
      exact ⟨.inl ⟨7, h7⟩, .inl ⟨7, h7⟩⟩)
    obtain ⟨gs, b, hr, hg⟩ := hread _ 0 _ sharing_reachable arena?_sharing (accepts _)
    have hps : ps = [.integer 7, .integer 7] :=
      List.right_unique_forall₂' (rightUnique_denotes _) hd (.cons h7 (.cons h7 .nil))
    exact ⟨bytes, hw, gs, b, hr, hps ▸ hg⟩

/-! ## 2. Calls -/

/-- **A refused call only gives back what it was handed.** Copies, documents and elements of
    iterators apart, an error leaves all payloads, generations, empty slots and accounts as they
    were, and takes from each value the references handed over. -/
theorem Reachable.refused_call (hw : w.Reachable) (ha : w.arena? k = some a) :
    (∀ c e b, (∀ d, c ≠ .importDocument d) → (∀ h, c ≠ .copy h) → (∀ h, c ≠ .nextValue h) →
      c.consumed.Subperm w.held → a.perform c = .error e b →
      (∀ i, (b.occupant? i).isSome = (a.occupant? i).isSome ∧ b.payload? i = a.payload? i ∧
        b.generation? i = a.generation? i) ∧
      b.vacant = a.vacant ∧ b.containersBuilt = a.containersBuilt ∧ b.tracker = a.tracker ∧
      ∀ i n, a.count? i = some n → ∃ m, b.count? i = some m ∧
        m + c.consumed.countP (fun h => a.resolves h && h.slot == i) = n) ∧
    -- the first handle that names no value decides, and only if all do the tracker
    (∀ c items make, (c = .buildList items ∧ make = Payload.list) ∨
        (c = .buildTuple items ∧ make = Payload.tuple) →
      ∀ e, (∃ b, a.perform c = .error e b) ↔
        (∃ pre h post, items = pre ++ h :: post ∧ (∀ g ∈ pre, a.resolves g) ∧
          a.lookup h = .error e) ∨
        (∀ h ∈ items, a.resolves h) ∧ ∃ why, e = .resource why ∧
          (a.tracker.charge (make (items.map (·.slot))).footprint).1 = .refused why) ∧
    -- the item decides before the container
    ∀ h e b,
      (∀ list, a.append list h = .error e b ↔ b = a.release h ∧
        (a.lookup h = .error e ∨ a.resolves h ∧ a.readList list = .error e)) ∧
      (∀ dict key, a.insertEntry dict key h = .error e b ↔ b = a.release h ∧
        (a.lookup h = .error e ∨ a.resolves h ∧ a.readDictionary dict = .error e)) ∧
      ∀ table name, a.bindMember table name h = .error e b ↔ b = a.release h ∧
        (a.lookup h = .error e ∨ a.resolves h ∧ a.readModule table = .error e) := by
  have co := hw.sound.coherent k a ha
  refine ⟨fun c e b hd hh hi hc hb => ?_, ?_,
    fun h e b => ⟨fun _ => takeOver_eq_error, fun _ _ => takeOver_eq_error,
      fun _ _ => takeOver_eq_error⟩⟩
  · have hbooks := perform_refuses a c hd hh hi
    have hstill := still_of_refused co.vacant hd hh hi hb
    -- the handles handed over are among the outstanding ones
    have ca : a.Coherent (c.consumed ++ (w.held.diff c.consumed ++ w.lost)) [] := by
      refine co.perm_ledger ?_
      rw [← List.append_assoc]
      exact (perm_consumed hc).append_right w.lost
    have hsettled := perform_settles c ca
    rw [hb] at hbooks hsettled
    have cb := hsettled ((unwrapped_congr hstill.refills?).mpr (hw.sound.unwrapped k a ha))
    refine ⟨fun i => ⟨hstill.occupied i, hstill.payload? i, ?_⟩, hbooks.vacant,
      hbooks.containersBuilt, hbooks.tracker, fun i n hn => ca.given_back cb hstill hn⟩
    rw [generation?_eq, generation?_eq, hstill.refills? i]
  · intro c items make h e
    have hmap : ∀ {r : Outcome Handle}, (∃ b, r.map Answer.handle = .error e b) ↔
        ∃ b, r = .error e b := fun {r} => by
      obtain ⟨_ | _, _⟩ := r <;> simp [Outcome.map, Outcome.error, Except.map]
    rcases h with ⟨rfl, rfl⟩ | ⟨rfl, rfl⟩
    · exact hmap.trans buildSequence_eq_error
    · exact hmap.trans buildSequence_eq_error

/-- A program with two arenas, an integer in each; that of the first is held twice. -/
def straying : List Action :=
  [.addArena .unlimited .silent, .addArena .unlimited .silent,
    .call 0 (.buildScalar (.integer 7)), .call 1 (.buildScalar (.integer 8)),
    .call 0 (.clone ⟨⟨1⟩, 0, 0⟩)]

theorem straying_reachable : (start.run straying).1.Reachable :=
  reachable_run straying (by decide +kernel)

/-- The first arena of `straying`, at the end. -/
def strayingArena : Arena := ((start.run straying).1.arena? 0).get (by decide +kernel)

theorem arena?_straying : (start.run straying).1.arena? 0 = some strayingArena :=
  (Option.some_get _).symm

/-- In `straying` no list is built of both integers, and the first has lost both its references. An
    integer of the other arena is refused before it is seen that the first one is no list. -/
theorem refused_call_straying :
    (∃ b, strayingArena.perform (.buildList [⟨⟨1⟩, 0, 0⟩, ⟨⟨2⟩, 0, 0⟩, ⟨⟨1⟩, 0, 0⟩]) =
        .error (.foreign ⟨1⟩ ⟨2⟩) b ∧ b.count? 0 = some 0 ∧ b.vacant = strayingArena.vacant) ∧
    ∃ b, strayingArena.append ⟨⟨1⟩, 0, 0⟩ ⟨⟨2⟩, 0, 0⟩ = .error (.foreign ⟨1⟩ ⟨2⟩) b := by
  obtain ⟨hcall, hlist, hitem⟩ := straying_reachable.refused_call arena?_straying
  constructor
  · obtain ⟨b, hb⟩ := (hlist (.buildList [⟨⟨1⟩, 0, 0⟩, ⟨⟨2⟩, 0, 0⟩, ⟨⟨1⟩, 0, 0⟩]) _ _
      (.inl ⟨rfl, rfl⟩) (.foreign ⟨1⟩ ⟨2⟩)).mpr
        (.inl ⟨[⟨⟨1⟩, 0, 0⟩], ⟨⟨2⟩, 0, 0⟩, [⟨⟨1⟩, 0, 0⟩], rfl, by decide +kernel, rfl⟩)
    obtain ⟨_, hv, _, _, hcount⟩ := hcall _ _ b (fun _ => Call.noConfusion)
      (fun _ => Call.noConfusion) (fun _ => Call.noConfusion) (by decide +kernel) hb
    obtain ⟨m, hm, hn⟩ := hcount 0 2 (by decide +kernel)
    have hgone : [(⟨⟨1⟩, 0, 0⟩ : Handle), ⟨⟨2⟩, 0, 0⟩, ⟨⟨1⟩, 0, 0⟩].countP
        (fun h => strayingArena.resolves h && h.slot == 0) = 2 := by decide +kernel
    refine ⟨b, hb, ?_, hv⟩
    rw [hm, show m = 0 by simp only [Call.consumed, hgone] at hn; omega]
  · exact ⟨_, ((hitem _ _ _).1 _).mpr ⟨rfl, .inl rfl⟩⟩

/-! ## 3. Copies -/

/-- After copying, the target is what the copy left, and every other arena is as it was. -/
theorem arena?_after_duplicate (ha : w.arena? k = some a) (ht : w.arena? l = some t) (h : Handle)
    (m : Nat) : (w.after (duplicate k l h)).arena? m =
      if m = l then some (if k = l then a.copy h else a.copyInto h t).arena else w.arena? m := by
  unfold duplicate
  by_cases e : k = l
  · subst e
    rw [if_pos rfl, if_pos rfl, after_call ha, arena?_book w ha]
    rfl
  · rw [if_neg e, if_neg e, after_copyInto ha ht, arena?_book w ht]
    rfl

/-- **A refused copy leaves nothing behind** but its trace, empty slots and counts of what was
    allocated, whichever of its slots is refused. -/
theorem Reachable.refused_copy (hw : w.Reachable) (ha : w.arena? k = some a)
    (ht : w.arena? l = some t) {h : Handle} {e : HeapError} {b : Arena}
    (hb : (if k = l then a.copy h else a.copyInto h t) = .error e b) :
    -- the same slots are live, with the same payloads, counts and generations
    (∀ i, b.occupant? i = t.occupant? i) ∧
    (∀ i, (t.occupant? i).isSome → b.generation? i = t.generation? i) ∧
    (b.snapshot.live = t.snapshot.live ∧ b.snapshot.unreferenced = t.snapshot.unreferenced ∧
      b.snapshot.census = t.snapshot.census) ∧
    -- of the accounts, the number of allocations alone may be another
    (∃ n, b.tracker = t.tracker.recounted n) ∧
    -- handles are read as before
    b.id = t.id ∧ (∀ g, b.lookup g = t.lookup g) ∧
    -- the trace goes on with the slots that were filled and emptied again
    (∃ filled : List (Slot × Kind), (∀ q ∈ filled, t.occupant? q.1 = none) ∧
      b.tracer = t.tracer.noteAll (filledEvents filled ++ emptiedEvents filled)) ∧
    -- every other arena is as it was, the source among them
    ∀ m, (w.after (duplicate k l h)).arena? m = if m = l then some b else w.arena? m := by
  have ca := hw.sound.coherent k a ha
  have ct := hw.sound.coherent l t ht
  obtain ⟨crossing, hc⟩ : ∃ crossing, a.copyTo h t crossing = .error e b := by
    by_cases e : k = l
    · subst e
      cases ha.symm.trans ht
      rw [if_pos rfl] at hb
      exact ⟨false, hb⟩
    · rw [if_neg e] at hb
      exact ⟨true, hb⟩
  have hr := copyTo_meets ca ct.vacant crossing (h := h)
  have hu := copyTo_undone ca ct.vacant crossing (h := h)
  rw [hc] at hr hu
  have restored : Restored t b := hr
  refine ⟨restored.occupant?, fun i hi => ?_, snapshot_congr restored.occupant?, hu.tracker,
    restored.id, restored.lookup, hu.tracer, fun m => ?_⟩
  · rw [generation?_eq, generation?_eq, restored.refills? i hi]
  · rw [arena?_after_duplicate ha ht, hb]
    rfl

/-- A program whose arena accepts three slots and records its events: an integer and a list of
    it. -/
def limiting : List Action :=
  [.addArena (.lenient ⟨some 3, none, none⟩ .zero) (.recording #[]),
    .call 0 (.buildScalar (.integer 7)), .call 0 (.buildList [⟨⟨1⟩, 0, 0⟩])]

theorem limiting_reachable : (start.run limiting).1.Reachable :=
  reachable_run limiting (by decide +kernel)

/-- The arena of `limiting`, at the end. -/
def limitingArena : Arena := ((start.run limiting).1.arena? 0).get (by decide +kernel)

theorem arena?_limiting : (start.run limiting).1.arena? 0 = some limitingArena :=
  (Option.some_get _).symm

/-- In `limiting` the list cannot be copied. -/
theorem limiting_refuses : ∃ b,
    limitingArena.copy ⟨⟨1⟩, 1, 0⟩ = .error (.resource (.allocations 3 4)) b ∧
      b.tracker = .lenient ⟨some 3, none, none⟩ ⟨3, 0⟩ ∧
      b.tracer.events? =
        some #[.allocate 0 .integer, .allocate 1 .list, .allocate 2 .list, .free 2 .list] := by
  have hans : (limitingArena.copy ⟨⟨1⟩, 1, 0⟩).answer =
      .error (.error (.resource (.allocations 3 4))) := by cbv
  refine ⟨(limitingArena.copy ⟨⟨1⟩, 1, 0⟩).arena, ?_, by cbv, by cbv⟩
  show (⟨(limitingArena.copy ⟨⟨1⟩, 1, 0⟩).answer, _⟩ : Outcome Handle) = _
  rw [hans]
  rfl

/-- In `limiting` the list stays as it was when it cannot be copied, and so do the statistics; the
    third allocation counts. -/
theorem refused_copy_limiting :
    ∃ b, limitingArena.copy ⟨⟨1⟩, 1, 0⟩ = .error (.resource (.allocations 3 4)) b ∧
      b.payload? 1 = some (.list [0]) ∧ b.snapshot.live = 2 ∧
      ∃ n, b.tracker = .lenient ⟨some 3, none, none⟩ ⟨n, 0⟩ := by
  obtain ⟨b, hb, _⟩ := limiting_refuses
  obtain ⟨hocc, _, ⟨hlive, _⟩, htracker, _⟩ :=
    limiting_reachable.refused_copy arena?_limiting arena?_limiting (by rw [if_pos rfl]; exact hb)
  refine ⟨b, hb, ?_, hlive, htracker⟩
  unfold Arena.payload?
  rw [hocc]
  rfl

/-- **A refused copy can be told from the trace**: in `limiting` it goes on with the slot that was
    filled for the list and emptied again. -/
theorem refused_copy_traced : (start.run limiting).1.Reachable ∧
    (start.run limiting).1.arena? 0 = some limitingArena ∧
    ∃ b, limitingArena.copy ⟨⟨1⟩, 1, 0⟩ = .error (.resource (.allocations 3 4)) b ∧
      limitingArena.tracer.events? = some #[.allocate 0 .integer, .allocate 1 .list] ∧
      b.tracer.events? =
        some #[.allocate 0 .integer, .allocate 1 .list, .allocate 2 .list, .free 2 .list] := by
  obtain ⟨b, hb, _, htrace⟩ := limiting_refuses
  exact ⟨limiting_reachable, arena?_limiting, b, hb, by decide +kernel, htrace⟩

/-! ## 4. Documents -/

/-- **Building a document never leaks.** What was built is one tree, of one slot for each node,
    each with one reference; what is left of it when it has been released, or could not be built,
    goes with the next collection, which finds everything else as it was. -/
theorem Reachable.import_leak_free (hw : w.Reachable) (ha : w.arena? k = some a)
    {d : Document} (hd : d.Proper) :
    -- however it ends, the values that were there are as they were
    (∀ i o, a.occupant? i = some o → (a.importDocument d).arena.occupant? i = some o ∧
      (a.importDocument d).arena.generation? i = a.generation? i) ∧
    (∀ h b, a.importDocument d = .ok h b → b.exportDocument h = .ok d.norm ∧
      ∃ slots : List Slot, h.slot ∈ slots ∧
        -- the slots that were filled, one for each node
        slots.Nodup ∧ (∀ i, i ∈ slots ↔ a.occupant? i = none ∧ (b.occupant? i).isSome) ∧
        b.Reads d.nodes slots ∧
        -- a tree, with one reference to each: the handle to the root, an entry to any other
        (∀ i ∈ slots, b.Leads h.slot i ∧ b.count? i = some 1 ∧
          b.entriesOn i = if i = h.slot then 0 else 1) ∧
        ∀ j, (b.release h).reclaim.2.occupant? j = a.reclaim.2.occupant? j) ∧
    ∀ e b, a.importDocument d = .error e b →
      ∀ j, b.reclaim.2.occupant? j = a.reclaim.2.occupant? j := by
  -- of the handles outstanding, those that name values are all that matter
  have co : a.Coherent (w.outstanding.filter a.resolves) [] :=
    (hw.sound.coherent k a ha).resolving
  have hl : ∀ x ∈ w.outstanding.filter a.resolves, a.resolves x := fun x hx =>
    (List.mem_filter.mp hx).2
  have hends : (a.importDocument d).Ends _ _ _ := buildTree_planted Document.levels hd a [] co hl
  refine ⟨fun i o ho => ?_, fun h b e => ?_, fun e b he => ?_⟩
  · obtain ⟨_, hs⟩ := buildTree_sown Document.levels hd co hl
    refine ⟨hs.occupant? co ho, ?_⟩
    rw [generation?_eq, generation?_eq]
    exact congrArg _ (hs.kept i _ (payload?_of_occupant? ho)).2
  · rw [e] at hends
    have hp : Planted a b _ [] [h.slot] d.nodes := hends.1
    have hr : b.resolves h := hends.2
    obtain ⟨slots, g, hread⟩ := hp.grove
    refine ⟨exportDocument_importDocument co.vacant hd e, slots,
      g.root_mem (List.mem_singleton_self _), g.nodup, g.mem_iff, hread, fun i hi => ?_, ?_⟩
    · obtain ⟨r, hroot, hlead⟩ := g.rooted i hi
      obtain rfl := List.mem_singleton.mp hroot
      refine ⟨hlead, g.count? hp.toGrows co hp.coherent hl hi, ?_⟩
      have hone := g.entriesOn hp.toGrows co hi
      by_cases hi' : i = h.slot
      · rw [hi', List.count_cons_self, List.count_nil] at hone
        rw [if_pos hi', hi']
        omega
      · rw [List.count_cons_of_ne (Ne.symm hi'), List.count_nil] at hone
        rw [if_neg hi']
        omega
    · exact (hp.sown.releaseAll [h] (List.forall_mem_singleton.mpr hr)).reclaim co hl
  · rw [he] at hends
    exact Sown.reclaim hends co hl

/-- An object whose first member can be built and whose second cannot. -/
def brokenDocument : Document :=
  .object [("sizes", .array [.integer 7, .integer 8]), ("owner", .null)]

theorem brokenDocument_proper : brokenDocument.Proper := by
  refine .object (by decide) (List.forall_mem_cons.mpr ⟨.array (List.forall_mem_cons.mpr ⟨?_,
    List.forall_mem_singleton.mpr ?_⟩), List.forall_mem_singleton.mpr .null⟩)
  · exact .integer (by decide) (by decide)
  · exact .integer (by decide) (by decide)

/-- In `sharing` the sample is built in five slots. Of the broken document four are left filled,
    and the next collection empties them. -/
theorem import_leak_free_sharing :
    (∃ h b slots, sharingArena.importDocument sampleDocument = .ok h b ∧
      b.Reads sampleDocument.nodes slots ∧ slots.length = 5 ∧ (∀ i ∈ slots, b.count? i = some 1) ∧
      ∀ j, (b.release h).reclaim.2.occupant? j = sharingArena.reclaim.2.occupant? j) ∧
    ∃ b, sharingArena.importDocument brokenDocument = .error (.unrepresentable .null) b ∧
      b.liveSlots = [0, 1, 2, 3, 4, 5, 6, 7] ∧ b.occupant? 0 = sharingArena.occupant? 0 ∧
      ∀ j, b.reclaim.2.occupant? j = sharingArena.reclaim.2.occupant? j := by
  constructor
  · have he : sharingArena.importDocument sampleDocument =
        .ok ⟨⟨1⟩, 4, 0⟩ (sharingArena.importDocument sampleDocument).arena := rfl
    obtain ⟨_, hok, _⟩ :=
      sharing_reachable.import_leak_free arena?_sharing sampleDocument_proper
    obtain ⟨_, slots, _, _, _, hread, htree, hreclaim⟩ := hok _ _ he
    refine ⟨_, _, slots, he, hread, ?_, fun i hi => (htree i hi).2.1, hreclaim⟩
    rw [← hread.length_eq]
    simp [sampleDocument, Document.nodes]
  · have he : sharingArena.importDocument brokenDocument = .error (.unrepresentable .null)
        (sharingArena.importDocument brokenDocument).arena := rfl
    obtain ⟨hkept, _, herror⟩ :=
      sharing_reachable.import_leak_free arena?_sharing brokenDocument_proper
    refine ⟨_, he, by decide +kernel, ?_, herror _ _ he⟩
    obtain ⟨o, ho⟩ := Option.isSome_iff_exists.mp
      (show (sharingArena.occupant? 0).isSome by decide +kernel)
    rw [ho]
    exact (hkept 0 o ho).1

end World

end ValueHeap
