import ValueHeap.Document.Record
import ValueHeap.Proofs.Enforcement

/-!
# Counters at the end of their range

A host may store a tracker and read it back, with any accounts that counters can hold. With accounts
close to the end of that range an addition can leave it, and then the request for a slot stops the
program, also where the tracker has no limit to refuse it by or is past its limit already. Giving
bytes back cannot.

* `Document.Stores`: the trackers that can be read from a document; `exists_stores_iff`: they are
  those whose limits and accounts fit into counters;
* `Tracker.Overflows`: the requests that leave the range; **`charge_overflowed_iff`**;
* `charge_usage`, `refund_usage`, **`verdicts_within`**: no request does as long as all that is
  asked for fits above the accounts;
* **`Document.Stores.charge_exact`**: what a request to a stored tracker comes to;
  **`charge_overflows`**: that it may stop the program.
-/

namespace ValueHeap

/-! ## 1. Stored trackers -/

/-- Limits that counters can hold. -/
structure Limits.Fits (limits : Limits) : Prop where
  allocations : ∀ m, limits.maxAllocations = some m → m < counterRange
  memory : ∀ m, limits.maxMemory = some m → m < counterRange
  interval : ∀ m, limits.gcInterval = some m → m < counterRange

/-- Accounts that counters can hold. -/
structure Usage.Fits (usage : Usage) : Prop where
  allocations : usage.allocations < counterRange
  memory : usage.memory < counterRange

/-- The accounts of a tracker; one without limits has none. -/
def Tracker.usage : Tracker → Usage
  | unlimited => .zero
  | lenient _ usage | strict _ usage => usage

/-- A tracker with limits and accounts that counters can hold. -/
def Tracker.Storable : Tracker → Prop
  | unlimited => False
  | lenient limits usage | strict limits usage => limits.Fits ∧ usage.Fits

/-- The figure that would exceed a limit. -/
def Refusal.figure : Refusal → Nat
  | allocations _ count => count
  | memory _ used => used

/-- The document holds the tracker. -/
def Document.Stores (d : Document) (t : Tracker) : Prop :=
  d.asLenient? = some t ∨ d.asStrict? = some t

namespace Document

variable {d d₁ d₂ d₃ : Document} {t : Tracker} {limits : Limits} {usage : Usage} {n : Nat}

theorem limits_none_fits : Limits.none.Fits :=
  ⟨fun _ h => (nomatch h), fun _ h => (nomatch h), fun _ h => (nomatch h)⟩

theorem usage_zero_fits : Usage.zero.Fits := ⟨by decide, by decide⟩

theorem asCounter?_lt (h : d.asCounter? = some n) : n < counterRange := by
  unfold asCounter? at h
  split at h
  · split at h
    · rename_i hn
      cases h
      omega
    · cases h
  · cases h

theorem asLimit?_lt {limit : Option Nat} (h : d.asLimit? = some limit) :
    ∀ m, limit = some m → m < counterRange := by
  unfold asLimit? at h
  split at h
  · cases h
    exact fun m e => (nomatch e)
  · obtain ⟨n, hn, rfl⟩ := Option.map_eq_some_iff.mp h
    exact fun m e => Option.some.inj e ▸ asCounter?_lt hn

theorem limitsOf?_fits (h : limitsOf? d₁ d₂ d₃ = some limits) : limits.Fits := by
  unfold limitsOf? at h
  split at h
  · rename_i h₁ h₂ h₃
    cases h
    exact ⟨asLimit?_lt h₁, asLimit?_lt h₂, asLimit?_lt h₃⟩
  · cases h

theorem asLimits?_fits (h : d.asLimits? = some limits) : limits.Fits := by
  unfold asLimits? at h
  split at h
  · exact limitsOf?_fits h
  · exact limitsOf?_fits h
  · cases h

/-- A field is read as it stands, or as what it is when it is missing. -/
theorem fieldOr_of {α : Type} {read : Document → Option α} {missing : Option α} {P : α → Prop}
    {field : Option Document} {x : α} (h : fieldOr read missing field = some x)
    (hread : ∀ d, read d = some x → P x) (hmissing : missing = some x → P x) : P x := by
  cases field with
  | none => exact hmissing h
  | some d => exact hread d h

theorem accountsOf?_fits {missing : Option (Limits × Usage)} {l a m : Option Document}
    (hm : ∀ p, missing = some p → p.1.Fits ∧ p.2.Fits)
    (h : accountsOf? missing l a m = some (limits, usage)) : limits.Fits ∧ usage.Fits := by
  unfold accountsOf? at h
  split at h
  · rename_i h₁ h₂ h₃
    cases h
    refine ⟨fieldOr_of h₁ (fun d => asLimits?_fits) fun e => ?_,
      ⟨fieldOr_of (P := (· < counterRange)) h₂ (fun d => asCounter?_lt) fun e => ?_,
        fieldOr_of (P := (· < counterRange)) h₃ (fun d => asCounter?_lt) fun e => ?_⟩⟩
    · obtain ⟨p, hp, rfl⟩ := Option.map_eq_some_iff.mp e
      exact (hm p hp).1
    · obtain ⟨p, hp, rfl⟩ := Option.map_eq_some_iff.mp e
      exact (hm p hp).2.allocations
    · obtain ⟨p, hp, rfl⟩ := Option.map_eq_some_iff.mp e
      exact (hm p hp).2.memory
  · cases h

theorem asAccounts?_fits {missing : Option (Limits × Usage)}
    (hm : ∀ p, missing = some p → p.1.Fits ∧ p.2.Fits)
    (h : d.asAccounts? missing = some (limits, usage)) : limits.Fits ∧ usage.Fits := by
  unfold asAccounts? at h
  split at h
  · exact accountsOf?_fits hm h
  · split at h
    · exact accountsOf?_fits hm h
    · cases h
  · cases h

theorem Stores.storable (h : d.Stores t) : t.Storable := by
  rcases h with h | h
  · obtain ⟨p, hp, rfl⟩ := Option.map_eq_some_iff.mp h
    refine asAccounts?_fits (fun q hq => ?_) hp
    cases hq
    exact ⟨limits_none_fits, usage_zero_fits⟩
  · obtain ⟨p, hp, rfl⟩ := Option.map_eq_some_iff.mp h
    exact asAccounts?_fits (fun q hq => by cases hq) hp

theorem asCounter?_integer (h : n < counterRange) : (integer n).asCounter? = some n := by
  have hn : 0 ≤ (n : Int) ∧ (n : Int) < counterRange := by omega
  show (if 0 ≤ (n : Int) ∧ (n : Int) < counterRange then some (n : Int).toNat else none) = _
  rw [if_pos hn, Int.toNat_natCast]

theorem asLimit?_numberOrNull {limit : Option Nat} (h : ∀ m, limit = some m → m < counterRange) :
    (numberOrNull limit).asLimit? = some limit := by
  cases limit with
  | none => rfl
  | some m =>
    show (integer m).asCounter?.map some = _
    rw [asCounter?_integer (h m rfl), Option.map_some]

/-- Limits are read back as they were written. -/
theorem asLimits?_toDocument (h : limits.Fits) : limits.toDocument.asLimits? = some limits := by
  show limitsOf? (numberOrNull limits.maxAllocations) (numberOrNull limits.maxMemory)
    (numberOrNull limits.gcInterval) = _
  rw [limitsOf?, asLimit?_numberOrNull h.allocations, asLimit?_numberOrNull h.memory,
    asLimit?_numberOrNull h.interval]

/-- Limits and accounts are read back as they were written. -/
theorem asAccounts?_accountsDocument (hl : limits.Fits) (hu : usage.Fits)
    (missing : Option (Limits × Usage)) :
    (accountsDocument limits usage).asAccounts? missing = some (limits, usage) := by
  have hfields : (accountsDocument limits usage).asAccounts? missing =
      accountsOf? missing (some limits.toDocument) (some (integer usage.allocations))
        (some (integer usage.memory)) := by
    simp [accountsDocument, asAccounts?, member?, List.lookup_cons]
  rw [hfields, accountsOf?, fieldOr, fieldOr, fieldOr, asLimits?_toDocument hl,
    asCounter?_integer hu.allocations, asCounter?_integer hu.memory]

/-- **The trackers that can be stored** are those whose limits and accounts fit into counters. -/
theorem exists_stores_iff : (∃ d : Document, d.Stores t) ↔ t.Storable := by
  refine ⟨fun ⟨d, h⟩ => h.storable, fun h => ?_⟩
  cases t with
  | unlimited => exact h.elim
  | lenient limits usage =>
    refine ⟨accountsDocument limits usage, .inl ?_⟩
    rw [asLenient?, asAccounts?_accountsDocument h.1 h.2, Option.map_some]
  | strict limits usage =>
    refine ⟨accountsDocument limits usage, .inr ?_⟩
    rw [asStrict?, asAccounts?_accountsDocument h.1 h.2, Option.map_some]

end Document

/-! ## 2. Requests that leave the range -/

namespace Tracker

variable {t : Tracker} {limits : Limits} {usage : Usage} {size : Nat}

/-- The limit on the number of allocations stands against one more. -/
def CountReached (limits : Limits) (usage : Usage) : Prop :=
  ∃ m, limits.maxAllocations = some m ∧ m ≤ usage.allocations

/-- The requests in which an addition leaves the range of a counter. A request that is one too many
    does if the number of requests cannot be told. Any other does in the memory, where that is
    looked at or kept; and a strict tracker also in the count, unless the memory is refused
    before. -/
def Overflows (t : Tracker) (size : Nat) : Prop :=
  match t with
  | unlimited => False
  | lenient limits usage =>
    (CountReached limits usage ∧ counterRange ≤ usage.allocations + 1) ∨
      (¬ CountReached limits usage ∧ limits.maxMemory.isSome ∧ counterRange ≤ usage.memory + size)
  | strict limits usage =>
    (CountReached limits usage ∧ counterRange ≤ usage.allocations + 1) ∨
      (¬ CountReached limits usage ∧ (counterRange ≤ usage.memory + size ∨
        counterRange ≤ usage.allocations + 1 ∧
          ∀ m, limits.maxMemory = some m → usage.memory + size ≤ m))

theorem checkCount_overflowed_iff : checkCount limits usage = .overflowed ↔
    CountReached limits usage ∧ counterRange ≤ usage.allocations + 1 := by
  unfold checkCount CountReached
  cases limits.maxAllocations with
  | none => simp
  | some m =>
    by_cases hle : m ≤ usage.allocations
    · by_cases hlt : usage.allocations + 1 < counterRange
      · simp [hle, hlt]
      · simp [hle, hlt, Nat.not_lt.mp hlt]
    · simp [hle]

theorem checkCount_accepted_iff :
    checkCount limits usage = .accepted ↔ ¬ CountReached limits usage := by
  constructor
  · rintro h ⟨m, hm, hle⟩
    exact absurd (checkCount_accepted h m hm) (Nat.not_lt.mpr hle)
  · intro h
    unfold checkCount
    split
    · rename_i m hm
      exact if_neg fun hle => h ⟨m, hm, hle⟩
    · rfl

theorem checkMemory_overflowed_iff : checkMemory limits usage size = .overflowed ↔
    limits.maxMemory.isSome ∧ counterRange ≤ usage.memory + size := by
  unfold checkMemory
  cases limits.maxMemory with
  | none => simp
  | some m =>
    by_cases hlt : usage.memory + size < counterRange
    · by_cases hle : m < usage.memory + size <;> simp [hle, hlt]
    · simp [hlt, Nat.not_lt.mp hlt]

theorem checkMemory_accepted_iff : checkMemory limits usage size = .accepted ↔
    ∀ m, limits.maxMemory = some m →
      usage.memory + size < counterRange ∧ usage.memory + size ≤ m := by
  unfold checkMemory
  cases limits.maxMemory with
  | none => simp
  | some m =>
    by_cases hlt : usage.memory + size < counterRange
    · by_cases hle : m < usage.memory + size
      · simp [hle, hlt]
      · simp [hle, hlt, Nat.not_lt.mp hle]
    · simp [hlt]

theorem strictUsage_overflowed_iff : (strictUsage usage size).1 = .overflowed ↔
    counterRange ≤ usage.allocations + 1 ∨ counterRange ≤ usage.memory + size := by
  unfold strictUsage
  by_cases hc : usage.allocations + 1 < counterRange
  · by_cases hm : usage.memory + size < counterRange
    · simp [hc, hm]
    · simpa [hc, hm] using .inr (Nat.not_lt.mp hm)
  · simpa [hc] using .inl (Nat.not_lt.mp hc)

/-- **Which requests leave the range of a counter.** -/
theorem charge_overflowed_iff : (t.charge size).1 = .overflowed ↔ t.Overflows size := by
  cases t with
  | unlimited => exact ⟨Verdict.noConfusion, False.elim⟩
  | lenient limits usage =>
    have hsteps : ((lenient limits usage).charge size).1 = .overflowed ↔
        checkCount limits usage = .overflowed ∨
          checkCount limits usage = .accepted ∧ checkMemory limits usage size = .overflowed := by
      cases hc : checkCount limits usage <;> cases hm : checkMemory limits usage size <;>
        simp [charge, hc, hm]
    rw [hsteps, checkCount_overflowed_iff, checkCount_accepted_iff, checkMemory_overflowed_iff]
    rfl
  | strict limits usage =>
    have hsteps : ((strict limits usage).charge size).1 = .overflowed ↔
        checkCount limits usage = .overflowed ∨
          checkCount limits usage = .accepted ∧ (checkMemory limits usage size = .overflowed ∨
            checkMemory limits usage size = .accepted ∧
              (strictUsage usage size).1 = .overflowed) := by
      cases hc : checkCount limits usage <;> cases hm : checkMemory limits usage size <;>
        simp [charge, hc, hm]
    rw [hsteps, checkCount_overflowed_iff, checkCount_accepted_iff, checkMemory_overflowed_iff,
      checkMemory_accepted_iff, strictUsage_overflowed_iff]
    refine or_congr Iff.rfl (and_congr_right fun _ => ?_)
    cases limits.maxMemory with
    | none => simp [or_comm]
    | some m =>
      simp only [Option.isSome_some, true_and, Option.some.injEq, forall_eq']
      omega

/-- The figure of a refusal is within the range of a counter. -/
theorem checkCount_figure {why : Refusal} (h : checkCount limits usage = .refused why) :
    why.figure < counterRange := by
  have hne : checkCount limits usage ≠ .overflowed := by
    rw [h]
    exact Verdict.noConfusion
  obtain ⟨m, hm, hle, rfl⟩ := (checkCount_refused_iff hne why).mp h
  exact Nat.not_le.mp fun hr => hne (checkCount_overflowed_iff.mpr ⟨⟨m, hm, hle⟩, hr⟩)

theorem checkMemory_figure {why : Refusal} (h : checkMemory limits usage size = .refused why) :
    why.figure < counterRange := by
  have hne : checkMemory limits usage size ≠ .overflowed := by
    rw [h]
    exact Verdict.noConfusion
  obtain ⟨m, hm, _, rfl⟩ := (checkMemory_refused_iff hne why).mp h
  exact Nat.not_le.mp fun hr => hne (checkMemory_overflowed_iff.mpr ⟨by rw [hm]; rfl, hr⟩)

theorem charge_figure {why : Refusal} (h : (t.charge size).1 = .refused why) :
    why.figure < counterRange := by
  have hstrict : ∀ usage, (strictUsage usage size).1 ≠ .refused why := by
    intro usage
    unfold strictUsage
    split
    · split <;> exact Verdict.noConfusion
    · exact Verdict.noConfusion
  cases t with
  | unlimited => cases h
  | lenient limits usage | strict limits usage =>
    cases hc : checkCount limits usage with
    | overflowed => simp [charge, hc] at h
    | refused r =>
      simp only [charge, hc] at h
      exact checkCount_figure (hc.trans h)
    | accepted =>
      cases hm : checkMemory limits usage size with
      | overflowed => simp [charge, hc, hm] at h
      | refused r =>
        simp only [charge, hc, hm] at h
        exact checkMemory_figure (hm.trans h)
      | accepted => simp [charge, hc, hm, hstrict] at h

/-- What an accepted request makes of the tracker. -/
theorem charge_accepted_cases (h : (t.charge size).1 = .accepted) :
    (t = .unlimited ∧ (t.charge size).2 = .unlimited) ∨
      (∃ limits usage, t = .lenient limits usage ∧
        (t.charge size).2 = .lenient limits (lenientUsage limits usage size) ∧
        (∀ m, limits.maxAllocations = some m → usage.allocations < m) ∧
        ∀ m, limits.maxMemory = some m → usage.memory + size < counterRange) ∨
      ∃ limits usage, t = .strict limits usage ∧
        (t.charge size).2 = .strict limits ⟨usage.allocations + 1, usage.memory + size⟩ ∧
        usage.allocations + 1 < counterRange ∧ usage.memory + size < counterRange := by
  cases t with
  | unlimited => exact .inl ⟨rfl, rfl⟩
  | lenient limits usage =>
    cases hc : checkCount limits usage <;> simp only [charge, hc, reduceCtorEq] at h ⊢
    cases hm : checkMemory limits usage size <;> simp only [hm, reduceCtorEq] at h ⊢
    exact .inr (.inl ⟨limits, usage, rfl, rfl, checkCount_accepted hc, fun m e =>
      (checkMemory_accepted_iff.mp hm m e).1⟩)
  | strict limits usage =>
    refine .inr (.inr ⟨limits, usage, rfl, (Arena.charge_strict h).1, ?_⟩)
    have hne : (strictUsage usage size).1 ≠ .overflowed := by
      cases hc : checkCount limits usage <;> simp only [charge, hc, reduceCtorEq] at h
      cases hm : checkMemory limits usage size <;> simp only [hm, reduceCtorEq] at h
      rw [h]
      exact Verdict.noConfusion
    rwa [ne_eq, strictUsage_overflowed_iff, not_or, Nat.not_le, Nat.not_le] at hne

/-- **What is accepted can be stored again.** -/
theorem charge_storable (h : t.Storable) (hv : (t.charge size).1 = .accepted) :
    (t.charge size).2.Storable := by
  obtain ⟨rfl, _⟩ | ⟨limits, usage, rfl, e, hcount, hbytes⟩ |
    ⟨limits, usage, rfl, e, hcount, hbytes⟩ :=
    charge_accepted_cases hv
  · exact h.elim
  · rw [e]
    refine ⟨h.1, ?_, ?_⟩
    · cases hl : limits.maxAllocations with
      | none => simpa [lenientUsage, hl] using h.2.allocations
      | some m =>
        have := hcount m hl
        have := h.1.allocations m hl
        simp only [lenientUsage, hl, Option.isSome_some, if_true]
        omega
    · cases hl : limits.maxMemory with
      | none => simpa [lenientUsage, hl] using h.2.memory
      | some m => simpa [lenientUsage, hl] using hbytes m hl
  · rw [e]
    exact ⟨h.1, hcount, hbytes⟩

/-- What is left when bytes are given back can be stored, too. -/
theorem refund_storable (h : t.Storable) (size : Nat) : (t.refund size).Storable := by
  cases t with
  | unlimited => exact h
  | lenient limits usage =>
    unfold refund
    dsimp only
    split
    · exact ⟨h.1, h.2.allocations, Nat.lt_of_le_of_lt (Nat.sub_le _ _) h.2.memory⟩
    · exact h
  | strict limits usage =>
    exact ⟨h.1, h.2.allocations, Nat.lt_of_le_of_lt (Nat.sub_le _ _) h.2.memory⟩

/-! ## 3. Runs of requests -/

/-- What an arena has to do with its tracker. -/
inductive Request
  /-- It asks for a slot of that size. -/
  | slot (size : Nat)
  /-- It gives the bytes of a slot back. -/
  | freed (size : Nat)

/-- The verdict on a request, and the tracker after it. -/
def answer (t : Tracker) : Request → Verdict × Tracker
  | .slot size => t.charge size
  | .freed size => (.accepted, t.refund size)

/-- The verdicts on some requests, in order. -/
def verdicts (t : Tracker) : List Request → List Verdict
  | [] => []
  | q :: rest => (t.answer q).1 :: (t.answer q).2.verdicts rest

/-- What some requests come to, if every slot is accepted and no bytes are given back. -/
def needs : List Request → Usage
  | [] => .zero
  | .slot size :: rest => ⟨(needs rest).allocations + 1, (needs rest).memory + size⟩
  | .freed _ :: rest => needs rest

/-- The accounts go up by no more than what is asked for. -/
theorem charge_usage (h : (t.charge size).1 ≠ .overflowed) :
    (t.charge size).2.usage.allocations ≤ t.usage.allocations + 1 ∧
      (t.charge size).2.usage.memory ≤ t.usage.memory + size := by
  cases hv : (t.charge size).1 with
  | overflowed => exact absurd hv h
  | refused why =>
    rw [Tracker.charge_refused hv]
    exact ⟨Nat.le_succ _, Nat.le_add_right _ _⟩
  | accepted =>
    obtain ⟨rfl, e⟩ | ⟨limits, usage, rfl, e, _⟩ | ⟨limits, usage, rfl, e, _⟩ :=
      charge_accepted_cases hv
    · rw [e]
      exact ⟨Nat.zero_le _, Nat.zero_le _⟩
    · rw [e]
      simp only [Tracker.usage, lenientUsage]
      constructor <;> split_ifs <;> omega
    · rw [e]
      exact ⟨Nat.le_refl _, Nat.le_refl _⟩

theorem refund_usage (t : Tracker) (size : Nat) :
    (t.refund size).usage.allocations = t.usage.allocations ∧
      (t.refund size).usage.memory ≤ t.usage.memory := by
  cases t with
  | unlimited => exact ⟨rfl, Nat.le_refl _⟩
  | lenient limits usage =>
    unfold refund
    dsimp only
    split
    · exact ⟨rfl, Nat.sub_le _ _⟩
    · exact ⟨rfl, Nat.le_refl _⟩
  | strict limits usage => exact ⟨rfl, Nat.sub_le _ _⟩

/-- A request that fits above the accounts does not leave the range. -/
theorem not_overflows (ha : t.usage.allocations + 1 < counterRange)
    (hm : t.usage.memory + size < counterRange) : ¬ t.Overflows size := by
  cases t with
  | unlimited => exact id
  | lenient limits usage =>
    rintro (⟨_, h⟩ | ⟨_, _, h⟩)
    · exact absurd ha (Nat.not_lt.mpr h)
    · exact absurd hm (Nat.not_lt.mpr h)
  | strict limits usage =>
    rintro (⟨_, h⟩ | ⟨_, h | ⟨h, _⟩⟩)
    · exact absurd ha (Nat.not_lt.mpr h)
    · exact absurd hm (Nat.not_lt.mpr h)
    · exact absurd ha (Nat.not_lt.mpr h)

/-- **No request leaves the range of a counter** as long as all that is asked for fits above the
    accounts. -/
theorem verdicts_within {qs : List Request}
    (ha : t.usage.allocations + (needs qs).allocations < counterRange)
    (hm : t.usage.memory + (needs qs).memory < counterRange) : .overflowed ∉ t.verdicts qs := by
  induction qs generalizing t with
  | nil => exact List.not_mem_nil
  | cons q rest ih =>
    rw [verdicts, List.mem_cons, not_or]
    cases q with
    | slot size =>
      simp only [needs] at ha hm
      have hin : (t.charge size).1 ≠ .overflowed := fun h =>
        not_overflows (by omega) (by omega) (charge_overflowed_iff.mp h)
      obtain ⟨hcount, hbytes⟩ := charge_usage hin
      refine ⟨hin.symm, ih ?_ ?_⟩
      · simp only [answer]
        omega
      · simp only [answer]
        omega
    | freed size =>
      obtain ⟨hcount, hbytes⟩ := t.refund_usage size
      simp only [needs] at ha hm
      refine ⟨Verdict.noConfusion, ih ?_ ?_⟩
      · simp only [answer]
        omega
      · simp only [answer]
        omega

end Tracker

/-! ## 4. Stored trackers at work -/

/-- The program stops at a slot exactly when the request for it leaves the range. -/
theorem Arena.allocate_overflows_iff {a : Arena} {p : Payload} {n : Nat} :
    (a.allocate p n).fault? = some .counterOverflow ↔ a.tracker.Overflows p.footprint := by
  rw [← Tracker.charge_overflowed_iff]
  unfold allocate
  dsimp only
  split
  · rename_i h
    simp [h, Outcome.fault?, Outcome.error]
  · rename_i h
    simp [h, Outcome.fault?, Outcome.fault]
  · rename_i h
    simp [h, Outcome.fault?, Outcome.ok]

open Tracker in
/-- **What a request to a stored tracker comes to.** For every tracker that can be read from a
    document, and every size: -/
theorem Document.Stores.charge_exact {d : Document} {t : Tracker} (h : d.Stores t) (size : Nat) :
    -- which requests leave the range of a counter; then, and only then, an allocation stops the
    -- program
    ((t.charge size).1 = .overflowed ↔ t.Overflows size) ∧
    (∀ (a : Arena) p n, a.tracker = t → p.footprint = size →
      ((a.allocate p n).fault? = some .counterOverflow ↔ t.Overflows size)) ∧
    -- a refusal can be told, and leaves the tracker as it was
    (∀ why, (t.charge size).1 = .refused why → (t.charge size).2 = t ∧ why.figure < counterRange) ∧
    -- what is accepted can be stored again, and so can what a freed slot leaves
    ((t.charge size).1 = .accepted → ∃ d' : Document, d'.Stores (t.charge size).2) ∧
    (∃ d' : Document, d'.Stores (t.refund size)) ∧
    -- nothing leaves the range while all that is asked for fits above the accounts
    ∀ qs, t.usage.allocations + (needs qs).allocations < counterRange →
      t.usage.memory + (needs qs).memory < counterRange → .overflowed ∉ t.verdicts qs := by
  refine ⟨charge_overflowed_iff, fun a p n ht hs => ?_,
    fun why hv => ⟨Tracker.charge_refused hv, charge_figure hv⟩,
    fun hv => exists_stores_iff.mpr (charge_storable h.storable hv),
    exists_stores_iff.mpr (refund_storable h.storable size), fun qs => verdicts_within⟩
  rw [← ht, ← hs]
  exact Arena.allocate_overflows_iff

/-- A strict tracker without limits, as a host has stored it: only 99 more bytes fit into its
    account of the memory. -/
def nearlyFull : Document :=
  .object [("limits", .object []), ("allocation_count", .integer 0),
    ("current_memory", .integer 18446744073709551516)]

/-- From `nearlyFull` a slot of 100 bytes cannot be counted; two of 40 and 50 bytes can, with one
    given back in between. -/
theorem charge_exact_nearlyFull :
    nearlyFull.Stores (.strict .none ⟨0, 18446744073709551516⟩) ∧
      ((Tracker.strict .none ⟨0, 18446744073709551516⟩).charge 100).1 = .overflowed ∧
      .overflowed ∉ (Tracker.strict .none ⟨0, 18446744073709551516⟩).verdicts
        [.slot 40, .freed 40, .slot 50] := by
  have h : nearlyFull.Stores (.strict .none ⟨0, 18446744073709551516⟩) := .inr (by decide +kernel)
  obtain ⟨hover, _⟩ := h.charge_exact 100
  obtain ⟨_, _, _, _, _, hwithin⟩ := h.charge_exact 40
  have hcount : ¬ Tracker.CountReached .none ⟨0, 18446744073709551516⟩ := by
    rintro ⟨m, hm, _⟩
    cases hm
  refine ⟨h, hover.mpr (.inr ⟨hcount, .inl (by decide)⟩), hwithin _ ?_ ?_⟩
  · decide
  · decide

/-- A strict tracker without limits, whose account of the memory is full. -/
def fullMemory : Document :=
  .object [("limits", .object []), ("allocation_count", .integer 0),
    ("current_memory", .integer 18446744073709551615)]

/-- **A request to a stored tracker may stop the program**, where it should be accepted, since there
    is no limit, or refused, since the tracker is past its limit: each addition can leave the
    range. -/
theorem charge_overflows :
    fullMemory.Stores (.strict .none ⟨0, 18446744073709551615⟩) ∧
      -- the memory of an accepted slot, and so no value can be built
      ((Tracker.strict .none ⟨0, 18446744073709551615⟩).charge 96).1 = .overflowed ∧
      ((Arena.empty ⟨1⟩ (.strict .none ⟨0, 18446744073709551615⟩) .silent).buildInteger 7).fault? =
        some .counterOverflow ∧
      -- the number of an accepted slot
      ((Tracker.strict .none ⟨18446744073709551615, 0⟩).charge 96).1 = .overflowed ∧
      -- the memory that a refusal tells
      ((Tracker.lenient ⟨none, some 200, none⟩ ⟨0, 18446744073709551615⟩).charge 96).1 =
        .overflowed ∧
      -- the number that a refusal tells
      ((Tracker.lenient ⟨some 10, none, none⟩ ⟨18446744073709551615, 0⟩).charge 96).1 =
        .overflowed := by
  refine ⟨.inr ?_, ?_⟩
  · decide +kernel
  · decide +kernel

end ValueHeap
