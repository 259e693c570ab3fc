import StockBank.Server.Replica

/-!
# The price of a loan

`PremiumAccount.getLoan` prices a loan on the entry it finds in
`availableCurrencies`, at any point of a run of the poll thread.  Once a response for
a currency has been stored its entry is a rate of the service, within the bounds of
the service.  Before that it is the placeholder `0.0`, and the loan costs nothing.

The interface has one currency more than the thread: nothing is ever stored for
`PLN`, so a loan in it raises.  The period is not looked at before the division.
-/

namespace StockBank.Server

open Lib Java

/-- A response for `k` is stored in this history. -/
def Published (es : List PollEvent) (k : Demo.Currency) : Prop :=
  ∃ currencies after result, .put k currencies after result ∈ es

/-- Where a response has been stored the map holds a rate within the bounds, and
elsewhere at most a placeholder. -/
structure Quoted (es : List PollEvent) (m : PMap Demo.Currency ℚ) : Prop where
  /-- An entry that a response was stored in is within the bounds. -/
  published : ∀ {k}, Published es k → ∃ rate, m.get k = some rate ∧
    Stock.MIN_BOUND < rate ∧ rate < Stock.MAX_BOUND
  placeholder : ∀ {k rate}, ¬ Published es k → m.get k = some rate → rate = 0

/-- A step that does not store a response for `k` does not publish `k`. -/
theorem published_snoc {es : List PollEvent} {e : PollEvent} {k : Demo.Currency}
    (h : ∀ currencies after result, e ≠ .put k currencies after result) :
    Published (es ++ [e]) k ↔ Published es k := by
  constructor
  · rintro ⟨currencies, after, result, he⟩
    rcases List.mem_append.mp he with he | he
    · exact ⟨currencies, after, result, he⟩
    · exact absurd (List.mem_singleton.mp he).symm (h currencies after result)
  · rintro ⟨currencies, after, result, he⟩
    exact ⟨currencies, after, result, List.mem_append_left _ he⟩

namespace Quoted

variable {es : List PollEvent} {m : PMap Demo.Currency ℚ} {k : Demo.Currency}

/-- A step that neither stores a response nor changes the map keeps the quotes. -/
theorem snoc (hq : Quoted es m) {e : PollEvent}
    (h : ∀ k currencies after result, e ≠ .put k currencies after result) :
    Quoted (es ++ [e]) m where
  published hpub := hq.published ((published_snoc (h _)).mp hpub)
  placeholder hpub := hq.placeholder (mt (published_snoc (h _)).mpr hpub)

theorem set (hq : Quoted es m) (hnone : m.get k = none) :
    Quoted (es ++ [.set k]) (m.put k 0) where
  published {k'} hpub := by
    obtain ⟨rate, hrate, hb⟩ := hq.published ((published_snoc (by simp)).mp hpub)
    have hne : k' ≠ k := by
      rintro rfl
      rw [hnone] at hrate
      cases hrate
    exact ⟨rate, by rwa [PMap.get_put_of_ne _ hne], hb⟩
  placeholder {k' rate} hpub hrate := by
    by_cases hk : k' = k
    · subst hk
      simpa using hrate.symm
    · exact hq.placeholder (mt (published_snoc (by simp)).mpr hpub)
        (by rwa [PMap.get_put_of_ne _ hk] at hrate)

theorem put (hq : Quoted es m) {currencies : StockRequest} {after : Stock.Table} {result : ℚ}
    (hb : Stock.MIN_BOUND < result ∧ result < Stock.MAX_BOUND) :
    Quoted (es ++ [.put k currencies after result]) (m.put k result) where
  published {k'} hpub := by
    by_cases hk : k' = k
    · subst hk
      exact ⟨result, by simp, hb⟩
    · obtain ⟨rate, hrate, hb'⟩ :=
        hq.published ((published_snoc (by simp [Ne.symm hk])).mp hpub)
      exact ⟨rate, by rwa [PMap.get_put_of_ne _ hk], hb'⟩
  placeholder {k' rate} hpub hrate := by
    by_cases hk : k' = k
    · subst hk
      exact absurd ⟨currencies, after, result, by simp⟩ hpub
    · exact hq.placeholder (mt (published_snoc (by simp [Ne.symm hk])).mpr hpub)
        (by rwa [PMap.get_put_of_ne _ hk] at hrate)

/-- The map is quoted in every state of every run. -/
theorem run {s : Poll} (h : Run PollStep (.start Stock.allCurrencies) es s) :
    Quoted es s.exchange.availableCurrencies := by
  induction h with
  | nil => exact ⟨fun ⟨_, _, _, he⟩ ↦ absurd he List.not_mem_nil, fun _ h ↦ nomatch h⟩
  | snoc hrun hstep ih =>
      have hs := InSync.run hrun
      have hplace := hs.place
      cases hstep with
      | setEur hpc =>
          rw [hpc] at hplace
          exact ih.set (hplace .EUR)
      | setUsd hpc =>
          rw [hpc] at hplace
          exact ih.set hplace
      | round hpc horder => exact ih.snoc (by simp)
      | ask hpc hreq =>
          obtain ⟨rfl, -⟩ := hs.ask_inv hpc hreq
          exact ih.snoc (by simp)
      | answer hpc hcall =>
          obtain ⟨val, -, -, rfl⟩ := hs.answer_inv hpc hcall
          exact ih.snoc (by simp)
      | fail hpc htable => exact ih.snoc (by simp)
      | put hpc =>
          rw [hpc] at hplace
          obtain ⟨⟨val, hval, -⟩, -⟩ := hplace
          have hne := polled_ne_pln (hs.keys _ (by rw [hval]; rfl))
          exact ih.put (hs.aligned.table.bounds hne (hs.answered hpc).2)
      | loan => exact ih.snoc (by simp)

end Quoted

/-- The cost is strictly between those at the two bounds of the service. -/
def WithinBounds (value periodLength : ℤ) (cost : Double) : Prop :=
  ∃ q : ℚ, cost = .finite q ∧ Stock.MIN_BOUND * value / periodLength < q ∧
    q < Stock.MAX_BOUND * value / periodLength

/-- A loan at some rate is within bounds when the rate is. -/
theorem withinBounds_div_iff {value periodLength : ℤ} (hvalue : 0 < value)
    (hperiod : 0 < periodLength) (rate : ℚ) :
    WithinBounds value periodLength (div (value * rate) periodLength) ↔
      Stock.MIN_BOUND < rate ∧ rate < Stock.MAX_BOUND := by
  have hvalue' : (0 : ℚ) < value := by exact_mod_cast hvalue
  have hperiod' : (0 : ℚ) < periodLength := by exact_mod_cast hperiod
  have hlow : Stock.MIN_BOUND * value / periodLength < value * rate / periodLength ↔
      Stock.MIN_BOUND < rate := by
    rw [div_lt_div_iff_of_pos_right hperiod', mul_comm, mul_lt_mul_iff_right₀ hvalue']
  have hhigh : value * rate / periodLength < Stock.MAX_BOUND * value / periodLength ↔
      rate < Stock.MAX_BOUND := by
    rw [div_lt_div_iff_of_pos_right hperiod', mul_comm Stock.MAX_BOUND,
      mul_lt_mul_iff_right₀ hvalue']
  rw [WithinBounds, div, if_pos hperiod.ne']
  constructor
  · rintro ⟨q, hq, hb⟩
    obtain rfl := Double.finite.inj hq
    exact ⟨hlow.mp hb.1, hhigh.mp hb.2⟩
  · rintro ⟨hb, hb'⟩
    exact ⟨_, rfl, hlow.mpr hb, hhigh.mpr hb'⟩

theorem getLoan_ok_inv {account : PremiumAccount} {m : PMap Demo.Currency ℚ}
    {currency : Demo.Currency} {value periodLength : ℤ} {cost : Double}
    (h : account.getLoan m currency value periodLength = .ok cost) :
    ∃ rate, m.get currency = some rate ∧ cost = div (value * rate) periodLength := by
  rw [PremiumAccount.getLoan] at h
  cases hrate : m.get currency with
  | none =>
      rw [hrate] at h
      cases h
  | some rate =>
      rw [hrate] at h
      exact ⟨rate, rfl, (Except.ok.inj h).symm⟩

/-- A loan is priced at any point, at what `getLoan` computes there. -/
theorem PollStep.loan_of {s : Poll} {account : PremiumAccount} {currency : Demo.Currency}
    {value periodLength : ℤ} {cost : Except NullPointerException Double}
    (h : account.getLoan s.exchange.availableCurrencies currency value periodLength = cost) :
    PollStep s (.loan account currency value periodLength cost) s := by
  rw [← h]
  exact .loan

theorem PollStep.loan_inv {s s' : Poll} {account : PremiumAccount} {currency : Demo.Currency}
    {value periodLength : ℤ} {cost : Except NullPointerException Double}
    (h : PollStep s (.loan account currency value periodLength cost) s') :
    account.getLoan s.exchange.availableCurrencies currency value periodLength = cost := by
  cases h
  rfl

/-- **A loan is priced within the bounds** exactly when a response for its currency
was stored before. -/
theorem loan_withinBounds_iff {es₁ es₂ : List PollEvent} {account : PremiumAccount}
    {currency : Demo.Currency} {value periodLength : ℤ} {cost : Double} {s : Poll}
    (h : Run PollStep (.start Stock.allCurrencies)
      (es₁ ++ .loan account currency value periodLength (.ok cost) :: es₂) s)
    (hvalue : 0 < value) (hperiod : 0 < periodLength) :
    WithinBounds value periodLength cost ↔ Published es₁ currency := by
  obtain ⟨s₁, s₂, hrun, hstep, -⟩ := h.split
  have hq := Quoted.run hrun
  obtain ⟨rate, hrate, rfl⟩ := getLoan_ok_inv hstep.loan_inv
  rw [withinBounds_div_iff hvalue hperiod]
  constructor
  · intro hb
    by_contra hpub
    obtain rfl := hq.placeholder hpub hrate
    exact absurd hb.1 (by norm_num [Stock.MIN_BOUND])
  · intro hpub
    obtain ⟨rate', hrate', hb⟩ := hq.published hpub
    obtain rfl : rate = rate' := by
      rw [hrate] at hrate'
      exact Option.some.inj hrate'
    exact hb

def sampleAccount : PremiumAccount :=
  .new "Jan" "Kowalski" "44051401458" ⟨.PLN, 0⟩ Random.zero

/-- A loan after the first response for its currency. -/
theorem loan_withinBounds_iff_first :
    WithinBounds 1000 10 (.finite (1000 * (374 / 100 + 1 / 10) / 10)) := by
  have hloan : sampleAccount.getLoan (initialCurrencies.put .EUR (374 / 100 + 1 / 10)) .EUR 1000 10 =
      .ok (.finite (1000 * (374 / 100 + 1 / 10) / 10)) := by
    rw [PremiumAccount.getLoan, PMap.get_put_self]
    rfl
  have hrun : Run PollStep (.start Stock.allCurrencies) (firstResponse ++
      .loan sampleAccount .EUR 1000 10 (.ok (.finite (1000 * (374 / 100 + 1 / 10) / 10))) :: []) _ :=
    firstResponse_run.snoc (.loan_of hloan)
  exact (loan_withinBounds_iff hrun (by decide) (by decide)).mpr
    ⟨_, _, _, List.mem_of_getLast? rfl⟩

/-- A loan in `EUR` before the first response, when the map holds the placeholders. -/
def earlyLoan : List PollEvent :=
  [.set .EUR, .set .USD, .loan sampleAccount .EUR 1000 10 (.ok (.finite 0))]

/-- Before the first response a loan costs nothing. -/
theorem earlyLoan_not_withinBounds :
    (∃ s, Run PollStep (.start Stock.allCurrencies) earlyLoan s) ∧
      ¬ WithinBounds 1000 10 (.finite 0) := by
  constructor
  · have hset : Run PollStep (.start Stock.allCurrencies) [.set .EUR, .set .USD]
        ⟨.polling [], ⟨initialCurrencies, Stock.allCurrencies⟩⟩ :=
      (Run.nil.snoc (.setEur rfl)).snoc (.setUsd rfl)
    have hloan : sampleAccount.getLoan initialCurrencies .EUR 1000 10 = .ok (.finite 0) := by
      decide +kernel
    exact ⟨_, hset.snoc (.loan_of hloan)⟩
  · rintro ⟨q, hq, hlow, -⟩
    obtain rfl := Double.finite.inj hq
    norm_num [Stock.MIN_BOUND] at hlow

/-! ## Every currency of the interface -/

/-- What a step does to the map: nothing, or one `put`. -/
theorem PollStep.availableCurrencies_cases {s s' : Poll} {e : PollEvent} (hs : Addressed s)
    (h : PollStep s e s') :
    s'.exchange.availableCurrencies = s.exchange.availableCurrencies ∨
      ∃ k rate, s'.exchange.availableCurrencies = s.exchange.availableCurrencies.put k rate := by
  cases h with
  | setEur hpc => exact .inr ⟨.EUR, 0, rfl⟩
  | setUsd hpc => exact .inr ⟨.USD, 0, rfl⟩
  | round hpc horder => exact .inl rfl
  | ask hpc hreq =>
      obtain ⟨rfl, -⟩ := hs.ask_inv hpc hreq
      exact .inl rfl
  | answer hpc hcall =>
      obtain ⟨val, -, -, rfl⟩ := hs.answer_inv hpc hcall
      exact .inl rfl
  | fail hpc htable => exact .inl rfl
  | @put k todo currencies after result hpc => exact .inr ⟨k, result, rfl⟩
  | loan => exact .inl rfl

/-- No step removes an entry. -/
theorem PollStep.isSome_get {s s' : Poll} {e : PollEvent} {k : Demo.Currency} (hs : Addressed s)
    (h : PollStep s e s') (hk : (s.exchange.availableCurrencies.get k).isSome) :
    (s'.exchange.availableCurrencies.get k).isSome := by
  rcases h.availableCurrencies_cases hs with hmap | ⟨k', rate, hmap⟩
  · rwa [hmap]
  · rw [hmap, PMap.get_put]
    split
    · rfl
    · exact hk

/-- No run removes an entry. -/
theorem isSome_get_of_run {s s' : Poll} {es : List PollEvent} {k : Demo.Currency}
    (hs : Addressed s) (h : Run PollStep s es s')
    (hk : (s.exchange.availableCurrencies.get k).isSome) :
    (s'.exchange.availableCurrencies.get k).isSome :=
  h.invariant_relative (I := Addressed) (J := fun s ↦ (s.exchange.availableCurrencies.get k).isSome)
    hs (fun _ _ _ hs hstep ↦ hs.step hstep) hk fun _ _ _ hs hk hstep ↦ hstep.isSome_get hs hk

/-- The entries of `setAvailableCurrencies` that are there at each place of the thread. -/
def Installed (m : PMap Demo.Currency ℚ) : PollPC → Prop
  | .started => True
  | .eurSet => (m.get .EUR).isSome
  | _ => (m.get .EUR).isSome ∧ (m.get .USD).isSome

theorem Installed.step {s s' : Poll} {e : PollEvent} (hs : Addressed s)
    (hi : Installed s.exchange.availableCurrencies s.pc) (h : PollStep s e s') :
    Installed s'.exchange.availableCurrencies s'.pc := by
  have hkept := fun k ↦ h.isSome_get (k := k) hs
  cases h with
  | setEur hpc => simp [Installed]
  | setUsd hpc =>
      rw [hpc] at hi
      exact ⟨hkept .EUR hi, by simp⟩
  | round hpc | ask hpc | answer hpc | fail hpc | put hpc =>
      rw [hpc] at hi
      exact ⟨hkept .EUR hi.1, hkept .USD hi.2⟩
  | loan => exact hi

theorem Installed.run {table : Stock.Table} {es : List PollEvent} {s : Poll}
    (h : Run PollStep (.start table) es s) : Installed s.exchange.availableCurrencies s.pc :=
  h.invariant_relative (I := Addressed)
    (J := fun s ↦ Installed s.exchange.availableCurrencies s.pc) (addressed_start table)
    (fun _ _ _ hs hstep ↦ hs.step hstep) trivial fun _ _ _ hs hi hstep ↦ hi.step hs hstep

/-- From the first round on both entries of `setAvailableCurrencies` are there. -/
theorem isSome_of_round {table : Stock.Table} {es : List PollEvent} {s : Poll}
    (h : Run PollStep (.start table) es s) {keys : List Demo.Currency} (he : .round keys ∈ es) :
    (s.exchange.availableCurrencies.get .EUR).isSome ∧
      (s.exchange.availableCurrencies.get .USD).isSome := by
  obtain ⟨es₁, es₂, rfl⟩ := List.append_of_mem he
  obtain ⟨s₁, s₂, hrun, hstep, hrest⟩ := h.split
  have hi := Installed.run hrun
  have hs := (Addressed.run hrun).step hstep
  cases hstep with
  | round hpc horder =>
      rw [hpc] at hi
      exact ⟨isSome_get_of_run hs hrest hi.1, isSome_get_of_run hs hrest hi.2⟩

/-- A round is completed in this history: since it began, a response has been stored for
each of its keys. -/
def CompletesRound (es : List PollEvent) : Prop :=
  ∃ before keys after, es = before ++ .round keys :: after ∧ ∀ k ∈ keys, Published after k

/-- The loan is priced on the entry of its currency, and refused when it has no period. -/
structure LoanPriced (m : PMap Demo.Currency ℚ) (currency : Demo.Currency)
    (value periodLength : ℤ) (cost : Except NullPointerException Double) : Prop where
  priced : periodLength ≠ 0 → ∃ rate, m.get currency = some rate ∧
    cost = .ok (.finite (value * rate / periodLength))
  refused : periodLength = 0 → ∃ e, cost = .error e

/-- On an entry, a loan is priced as it should be unless it has no period. -/
theorem loanPriced_of_some {m : PMap Demo.Currency ℚ} {currency : Demo.Currency} {rate : ℚ}
    (h : m.get currency = some rate) (account : PremiumAccount) (value periodLength : ℤ) :
    LoanPriced m currency value periodLength (account.getLoan m currency value periodLength) ↔
      periodLength ≠ 0 := by
  rw [PremiumAccount.getLoan, h]
  constructor
  · rintro hpriced rfl
    obtain ⟨e, he⟩ := hpriced.refused rfl
    cases he
  · intro hperiod
    refine ⟨fun _ ↦ ⟨rate, h, ?_⟩, fun h₀ ↦ absurd h₀ hperiod⟩
    change Except.ok (div (value * rate) periodLength) = _
    rw [div, if_pos hperiod]

/-- Without an entry the call raises, which is what a loan without a period should do. -/
theorem loanPriced_of_none {m : PMap Demo.Currency ℚ} {currency : Demo.Currency}
    (h : m.get currency = none) (account : PremiumAccount) (value periodLength : ℤ) :
    LoanPriced m currency value periodLength (account.getLoan m currency value periodLength) ↔
      periodLength = 0 := by
  rw [PremiumAccount.getLoan, h]
  constructor
  · intro hpriced
    by_contra hperiod
    obtain ⟨rate, hrate, -⟩ := hpriced.priced hperiod
    rw [h] at hrate
    cases hrate
  · intro hperiod
    exact ⟨fun hne ↦ absurd hperiod hne, fun _ ↦ ⟨_, rfl⟩⟩

/-- **A loan can be priced in every currency**, once a round is completed, exactly when
its currency is not `PLN`, for which there is no rate, and its period is not zero, which
is not refused; or when both are, since the missing rate raises before the division. -/
theorem loanPriced_iff {table : Stock.Table} {es : List PollEvent} {s : Poll}
    (h : Run PollStep (.start table) es s) (hround : CompletesRound es) (account : PremiumAccount)
    (currency : Demo.Currency) (value periodLength : ℤ) :
    LoanPriced s.exchange.availableCurrencies currency value periodLength
        (account.getLoan s.exchange.availableCurrencies currency value periodLength) ↔
      (currency ≠ .PLN ↔ periodLength ≠ 0) := by
  obtain ⟨before, keys, after, rfl, -⟩ := hround
  have hmem : PollEvent.round keys ∈ before ++ .round keys :: after := by simp
  obtain ⟨heur, husd⟩ := isSome_of_round h hmem
  have hpln : s.exchange.availableCurrencies.get .PLN = none := by
    by_contra hne
    exact (Addressed.run h).keys .PLN (Option.isSome_iff_ne_none.mpr hne) rfl
  cases currency with
  | PLN => rw [loanPriced_of_none hpln]; simp
  | USD =>
      obtain ⟨rate, hrate⟩ := Option.isSome_iff_exists.mp husd
      rw [loanPriced_of_some hrate]
      simp
  | EUR =>
      obtain ⟨rate, hrate⟩ := Option.isSome_iff_exists.mp heur
      rw [loanPriced_of_some hrate]
      simp

/-- The state after the first round, when both draws are `1 / 10`. -/
def afterFirstRound : Poll where
  pc := .polling []
  exchange :=
    { availableCurrencies :=
        (initialCurrencies.put .EUR (374 / 100 + 1 / 10)).put .USD (427 / 100 + 1 / 10)
      service := (Stock.allCurrencies.set .CHF (374 / 100 + 1 / 10)).set .EUR (427 / 100 + 1 / 10) }

def firstRound : List PollEvent :=
  firstResponse ++ [.ask .USD [⟨.EUR, 0⟩]] ++ [.answer .USD] ++
    [.put .USD [⟨.EUR, 0⟩] afterFirstRound.exchange.service (427 / 100 + 1 / 10)]

theorem firstRound_run : Run PollStep (.start Stock.allCurrencies) firstRound afterFirstRound := by
  have hb : 427 / 100 + 1 / 10 > Stock.MIN_BOUND ∧ 427 / 100 + 1 / 10 < Stock.MAX_BOUND := by
    norm_num [Stock.MIN_BOUND, Stock.MAX_BOUND]
  have hval : (initialCurrencies.put .EUR (374 / 100 + 1 / 10)).get .USD = some 0 := rfl
  have hrate : (Stock.allCurrencies.set .CHF (374 / 100 + 1 / 10)).get .EUR =
      some (427 / 100) := rfl
  have h₁ := firstResponse_run.snoc (.ask rfl (exec_request hval))
  have h₂ := h₁.snoc (.answer rfl (exec_call_tenth hrate hb 0))
  exact h₂.snoc (.put rfl)

theorem firstRound_completes : CompletesRound firstRound := by
  refine ⟨[.set .EUR, .set .USD], [.EUR, .USD], _, rfl, ?_⟩
  intro k hk
  rcases List.mem_cons.mp hk with rfl | hk
  · exact ⟨_, _, _, List.mem_cons_of_mem _ (List.mem_cons_of_mem _ List.mem_cons_self)⟩
  · obtain rfl := List.mem_singleton.mp hk
    exact ⟨_, _, _, List.mem_of_getLast? rfl⟩

/-- A loan in `EUR` after the first round. -/
theorem loanPriced_iff_first : LoanPriced afterFirstRound.exchange.availableCurrencies .EUR 1000 10
    (sampleAccount.getLoan afterFirstRound.exchange.availableCurrencies .EUR 1000 10) :=
  (loanPriced_iff firstRound_run firstRound_completes sampleAccount .EUR 1000 10).mpr (by decide)

/-- After the first round, a loan in `PLN` raises, and a loan without a period has an
infinite cost. -/
theorem not_loanPriced :
    (Run PollStep (.start Stock.allCurrencies) firstRound afterFirstRound ∧
      CompletesRound firstRound) ∧
    ¬ LoanPriced afterFirstRound.exchange.availableCurrencies .PLN 1000 10
      (sampleAccount.getLoan afterFirstRound.exchange.availableCurrencies .PLN 1000 10) ∧
    ¬ LoanPriced afterFirstRound.exchange.availableCurrencies .EUR 1000 0
      (sampleAccount.getLoan afterFirstRound.exchange.availableCurrencies .EUR 1000 0) := by
  have hpln : afterFirstRound.exchange.availableCurrencies.get .PLN = none := rfl
  have heur : afterFirstRound.exchange.availableCurrencies.get .EUR =
      some (374 / 100 + 1 / 10) := rfl
  refine ⟨⟨firstRound_run, firstRound_completes⟩, ?_, ?_⟩
  · rw [loanPriced_of_none hpln]
    decide
  · rw [loanPriced_of_some heur]
    decide

end StockBank.Server
