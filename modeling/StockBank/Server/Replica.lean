import StockBank.Server.PollThread

/-!
# The map as a replica of the service's table

The service answers with its own rate only when it accepts its draw; otherwise it
sends back the number the bank sent.  The map is a replica of the rates polled all
the same: the bank sends the rate it got last, and the first time, when it sends the
placeholder `0.0`, the draw is always accepted.

`Aligned` is the invariant of the two processes.  It speaks of every key but the one
whose call the service has served and whose response is not stored yet.
-/

namespace StockBank.Server

open Lib Java

/-- The entry of `k` is the rate polled for it, or it is still the placeholder and
that rate has not moved. -/
def InStep (x : Exchange Stock.Table) (k : Demo.Currency) : Prop :=
  x.availableCurrencies.get k = x.service.get (polled k) ∨
    x.availableCurrencies.get k = some 0 ∧
      x.service.get (polled k) = Stock.allCurrencies.get (polled k)

/-- The map and the table agree, except possibly at the key `moving`. -/
structure Aligned (x : Exchange Stock.Table) (moving : Option Demo.Currency) : Prop where
  table : x.service.InBounds
  /-- A rate that is not polled has not moved. -/
  unpolled : ∀ k, k ≠ .PLN → x.availableCurrencies.get k = none →
    x.service.get (polled k) = Stock.allCurrencies.get (polled k)
  /-- The entries are in step with the rates polled for them. -/
  inStep : ∀ k, (x.availableCurrencies.get k).isSome → moving ≠ some k → InStep x k

theorem polled_mem (k : Demo.Currency) : polled k ∈ Stock.allCurrencies.keys := by
  cases k <;> simp [polled]

theorem polled_ne_pln {k : Demo.Currency} (h : k ≠ .PLN) : polled k ≠ .PLN :=
  fun hk ↦ h (polled_injective hk)

namespace Aligned

variable {x : Exchange Stock.Table} {k : Demo.Currency}

theorem weaken (h : Aligned x none) (moving : Option Demo.Currency) : Aligned x moving :=
  { h with inStep := fun k hk _ ↦ h.inStep k hk (by simp) }

/-- A placeholder for a rate that has not moved is in step with it. -/
theorem set (h : Aligned x none) (hk : k ≠ .PLN) (hnone : x.availableCurrencies.get k = none) :
    Aligned { x with availableCurrencies := x.availableCurrencies.put k 0 } none where
  table := h.table
  unpolled k' hk' hnone' := by
    refine h.unpolled k' hk' ?_
    by_cases hkk : k' = k
    · exact hkk ▸ hnone
    · simpa [hkk] using hnone'
  inStep k' hk' hmoving := by
    by_cases hkk : k' = k
    · subst hkk
      exact .inr ⟨by simp, h.unpolled k' hk hnone⟩
    · rw [PMap.get_put_of_ne _ hkk] at hk'
      simpa [InStep, hkk] using h.inStep k' hk' hmoving

/-- A request that the service serves leaves the other keys as they were. -/
theorem serve (h : Aligned x none) (hk : (x.availableCurrencies.get k).isSome)
    {q : Stock.Request} (hq : q.currencies.curr = polled k) :
    Aligned { x with service := q.after x.service } (some k) where
  table := Stock.Request.inBounds_after h.table
  unpolled k' hk' hnone := by
    have hkk : k' ≠ k := by
      rintro rfl
      rw [hnone] at hk
      cases hk
    have hne : polled k' ≠ q.currencies.curr := hq ▸ polled_injective.ne hkk
    rw [Stock.Request.get_after_of_ne hne]
    exact h.unpolled k' hk' hnone
  inStep k' hk' hmoving := by
    have hkk : k' ≠ k := fun hkk ↦ hmoving (by rw [hkk])
    have hne : polled k' ≠ q.currencies.curr := hq ▸ polled_injective.ne hkk
    simpa only [InStep, Stock.Request.get_after_of_ne hne] using h.inStep k' hk' (by simp)

/-- A response that is the rate now held brings its key back in step. -/
theorem store (h : Aligned x (some k)) (hk : (x.availableCurrencies.get k).isSome) {result : ℚ}
    (hresult : x.service.get (polled k) = some result) :
    Aligned { x with availableCurrencies := x.availableCurrencies.put k result } none where
  table := h.table
  unpolled k' hk' hnone := by
    refine h.unpolled k' hk' (Option.isNone_iff_eq_none.mp ?_)
    rw [← Option.not_isSome, ← isSome_get_put hk result k', hnone]
    rfl
  inStep k' hk' _ := by
    by_cases hkk : k' = k
    · subst hkk
      exact .inl (by simp [hresult])
    · rw [isSome_get_put hk] at hk'
      simpa [InStep, hkk] using h.inStep k' hk' (by simpa using Ne.symm hkk)

/-- What the service answers to the request for an entry in step is the rate it then
holds: an entry that is the rate may be sent back, and a placeholder is not. -/
theorem get_after (h : Aligned x none) (hk : k ≠ .PLN) {val : ℚ}
    (hval : x.availableCurrencies.get k = some val) (draw : Stock.Currency → Stock.Draw) :
    (Stock.Request.after ⟨⟨polled k, val⟩, draw⟩ x.service).get (polled k) =
      some (Stock.Request.rate ⟨⟨polled k, val⟩, draw⟩ x.service) := by
  refine Stock.Request.get_after_curr ?_
  rcases h.inStep k (by rw [hval]; rfl) (by simp) with hrate | ⟨-, hrate⟩
  · exact .inl (hrate.symm.trans hval)
  · exact .inr (Stock.Request.accepted_ne_none (polled_mem k) (polled_ne_pln hk) hrate)

end Aligned

/-- The key whose call the service may have served without a response being stored. -/
def PollPC.moving : PollPC → Option Demo.Currency
  | .answered k _ _ _ _ => some k
  | .dead k => some k
  | _ => none

/-- What every step of the two processes keeps. -/
structure InSync (s : Poll) : Prop extends Addressed s where
  aligned : Aligned s.exchange s.pc.moving
  /-- A response not stored yet is the rate the service holds. -/
  answered : ∀ {k currencies after result todo}, s.pc = .answered k currencies after result todo →
    after = s.exchange.service ∧ s.exchange.service.get (polled k) = some result

theorem inSync_start : InSync (.start Stock.allCurrencies) where
  toAddressed := addressed_start _
  aligned :=
    { table := Stock.Table.inBounds_allCurrencies
      unpolled := fun _ _ _ ↦ rfl
      inStep := fun _ h ↦ nomatch h }
  answered h := nomatch h

theorem InSync.step {s s' : Poll} {e : PollEvent} (hs : InSync s) (h : PollStep s e s') :
    InSync s' := by
  have hplace := hs.place
  have haligned := hs.aligned
  refine { toAddressed := hs.toAddressed.step h, aligned := ?_, answered := ?_ }
  · cases h with
    | setEur hpc =>
        rw [hpc] at hplace haligned
        exact haligned.set (by simp) (hplace .EUR)
    | setUsd hpc =>
        rw [hpc] at hplace haligned
        exact haligned.set (by simp) hplace
    | round hpc horder => rwa [hpc] at haligned
    | ask hpc hreq =>
        obtain ⟨rfl, -⟩ := hs.ask_inv hpc hreq
        rwa [hpc] at haligned
    | answer hpc hcall =>
        obtain ⟨val, hval, -, rfl⟩ := hs.answer_inv hpc hcall
        rw [hpc] at haligned
        exact haligned.serve (by rw [hval]; rfl) rfl
    | fail hpc htable =>
        rw [hpc] at haligned
        rcases hs.fail_inv hpc htable with rfl | ⟨val, draw, hval, rfl⟩
        · exact haligned.weaken _
        · exact haligned.serve (by rw [hval]; rfl) rfl
    | put hpc =>
        rw [hpc] at hplace haligned
        obtain ⟨⟨val, hval, -⟩, -⟩ := hplace
        exact haligned.store (by rw [hval]; rfl) (hs.answered hpc).2
    | loan => exact haligned
  · intro k currencies after result todo hpc'
    cases h with
    | answer hpc hcall =>
        obtain ⟨val, hval, rfl, rfl⟩ := hs.answer_inv hpc hcall
        obtain ⟨rfl, -, rfl, rfl, -⟩ := PollPC.answered.inj hpc'
        rw [hpc] at haligned
        exact ⟨rfl, haligned.get_after (hs.keys _ (by rw [hval]; rfl)) hval _⟩
    | loan => exact hs.answered hpc'
    | _ => cases hpc'

theorem InSync.run {es : List PollEvent} {s : Poll}
    (h : Run PollStep (.start Stock.allCurrencies) es s) : InSync s :=
  h.invariant inSync_start fun _ _ _ hs hstep ↦ hs.step hstep

/-! ## Until the next request -/

def PollPC.active : PollPC → Option Demo.Currency
  | .calling k _ _ => some k
  | .answered k _ _ _ _ => some k
  | .dead k => some k
  | _ => none

/-- The entry of `k` is the rate polled for it, and no call for `k` is under way. -/
structure Settled (k : Demo.Currency) (s : Poll) : Prop where
  isSome : (s.exchange.availableCurrencies.get k).isSome
  eq : s.exchange.availableCurrencies.get k = s.exchange.service.get (polled k)
  inactive : s.pc.active ≠ some k

/-- Only a request for its key unsettles an entry. -/
theorem Settled.step {k : Demo.Currency} {s s' : Poll} {e : PollEvent} (hk : Settled k s)
    (hs : Addressed s) (h : PollStep s e s') (he : ∀ currencies, e ≠ .ask k currencies) :
    Settled k s' := by
  obtain ⟨hsome, heq, hinactive⟩ := hk
  have hplace := hs.place
  -- a call for another key moves another rate
  have hserve : ∀ {k' val draw}, k' ≠ k →
      (Stock.Request.after ⟨⟨polled k', val⟩, draw⟩ s.exchange.service).get (polled k) =
        s.exchange.service.get (polled k) := fun hne ↦
    Stock.Request.get_after_of_ne (polled_injective.ne (Ne.symm hne))
  cases h with
  | setEur hpc =>
      rw [hpc] at hplace
      rw [hplace k] at hsome
      cases hsome
  | setUsd hpc =>
      rw [hpc] at hplace
      have hne : k ≠ .USD := by
        rintro rfl
        rw [show s.exchange.availableCurrencies.get .USD = none from hplace] at hsome
        cases hsome
      exact ⟨by simpa [hne] using hsome, by simpa [hne] using heq, by simp [PollPC.active]⟩
  | round hpc horder => exact ⟨hsome, heq, by simp [PollPC.active]⟩
  | @ask k' todo currencies exchange hpc hreq =>
      obtain ⟨rfl, -⟩ := hs.ask_inv hpc hreq
      refine ⟨hsome, heq, ?_⟩
      intro hk
      obtain rfl := Option.some.inj hk
      exact he currencies rfl
  | answer hpc hcall =>
      obtain ⟨val, -, -, rfl⟩ := hs.answer_inv hpc hcall
      rw [hpc] at hinactive
      have hne : _ ≠ k := fun h ↦ hinactive (congrArg some h)
      exact ⟨hsome, heq.trans (hserve hne).symm, hinactive⟩
  | fail hpc htable =>
      rw [hpc] at hinactive
      have hne : _ ≠ k := fun h ↦ hinactive (congrArg some h)
      rcases hs.fail_inv hpc htable with rfl | ⟨val, draw, -, rfl⟩
      · exact ⟨hsome, heq, hinactive⟩
      · exact ⟨hsome, heq.trans (hserve hne).symm, hinactive⟩
  | put hpc =>
      rw [hpc] at hinactive
      have hne : k ≠ _ := fun h ↦ hinactive (congrArg some h.symm)
      exact ⟨by simpa [hne] using hsome, by simpa [hne] using heq, by simp [PollPC.active]⟩
  | loan => exact ⟨hsome, heq, hinactive⟩

/-- An entry stays settled until the next request for its key. -/
theorem Settled.run {k : Demo.Currency} {s s' : Poll} {es : List PollEvent} (hk : Settled k s)
    (hs : Addressed s) (h : Run PollStep s es s') (he : ∀ currencies, .ask k currencies ∉ es) :
    Settled k s' := by
  induction h with
  | nil => exact hk
  | snoc hrun hstep ih =>
      have haddressed := hrun.invariant hs fun _ _ _ hs hstep ↦ hs.step hstep
      refine (ih fun c hc ↦ he c (List.mem_append_left _ hc)).step haddressed hstep ?_
      rintro c rfl
      exact he c (List.mem_append_right _ (List.mem_singleton_self _))

/-- **The map is a replica.**  From the moment a response for `k` is stored until the
next request for `k`, the entry of `k` is the service's rate of the currency whose
number is one more than the ordinal of `k`. -/
theorem entry_is_replica {es₁ es₂ : List PollEvent} {k : Demo.Currency} {currencies : StockRequest}
    {after : Stock.Table} {result : ℚ} {s : Poll}
    (h : Run PollStep (.start Stock.allCurrencies) (es₁ ++ .put k currencies after result :: es₂) s)
    (hnext : ∀ currencies', .ask k currencies' ∉ es₂) :
    ∃ c rate, Stock.Currency.forNumber (k.value + 1) = some c ∧
      s.exchange.availableCurrencies.get k = some rate ∧ s.exchange.service.get c = some rate := by
  obtain ⟨s₁, s₂, hrun, hstep, hrest⟩ := h.split
  have hs₁ := InSync.run hrun
  have hsettled : Settled k s₂ := by
    cases hstep with
    | put hpc => exact ⟨by simp, by simp [(hs₁.answered hpc).2], by simp [PollPC.active]⟩
  have hs := hsettled.run (hs₁.toAddressed.step hstep) hrest hnext
  obtain ⟨rate, hrate⟩ := Option.isSome_iff_exists.mp hs.isSome
  exact ⟨polled k, rate, forNumber_value_succ k, hrate, hs.eq ▸ hrate⟩

theorem entry_is_replica_first : ∃ s, Run PollStep (.start Stock.allCurrencies) firstResponse s ∧
    ∃ c rate, Stock.Currency.forNumber (Demo.Currency.value .EUR + 1) = some c ∧
      s.exchange.availableCurrencies.get .EUR = some rate ∧
      s.exchange.service.get c = some rate := by
  have h : Run PollStep (.start Stock.allCurrencies) (firstResponse.take 5 ++ .put .EUR
      [⟨.CHF, 0⟩] (Stock.allCurrencies.set .CHF (374 / 100 + 1 / 10)) (374 / 100 + 1 / 10) :: []) _ :=
    firstResponse_run
  exact ⟨_, h, entry_is_replica h fun _ ↦ List.not_mem_nil⟩

end StockBank.Server
