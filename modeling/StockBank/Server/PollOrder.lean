import StockBank.Server.PollThread

/-!
# The iteration order of the map

`availableCurrencies` is a hash map whose keys are enumerators, hashed by their
identity: a round visits the entries in an order that differs from one run of the
virtual machine to the next.

It does not matter.  A request touches the rate of one currency, the shift takes two
keys to two currencies, and the `put` replaces the entry just visited.  A round does
therefore, in any order, what asking for all the entries at once would do; that is
`PolledAtOnce`, and `PolledAtOnce.unique` is why the order is forgotten.
-/

namespace StockBank.Server

open Lib

/-- The stub, keeping the requests it gets. -/
def logged {σ : Type} (stub : Stub σ) : Stub (σ × List StockRequest) := fun currencies s ↦
  let (response, service) := stub currencies s.1
  (response, (service, s.2 ++ [currencies]))

/-- The thread's map, the table of the service, and the requests sent so far. -/
abbrev Polling := Exchange (Stock.Table × List StockRequest)

/-- The `for` of one round.  `draw k` is what the service draws in the call for `k`. -/
def pollRound (draw : Demo.Currency → Stock.Currency → Stock.Draw) (keys : List Demo.Currency) :
    ExchangeM (Stock.Table × List StockRequest) Unit :=
  keys.forM fun k ↦ visit (logged (stockService (draw k))) k

/-- The first `n` turns of the `while`, with the draws and the iteration order of each. -/
def pollRounds (draw : ℕ → Demo.Currency → Stock.Currency → Stock.Draw)
    (order : ℕ → List Demo.Currency) (n : ℕ) :
    ExchangeM (Stock.Table × List StockRequest) Unit :=
  (List.range n).forM fun r ↦ pollRound (draw r) (order r)

variable {draw : Demo.Currency → Stock.Currency → Stock.Draw}

/-! ## One round -/

/-- The request for `k`, when the map is `m`. -/
def query (draw : Demo.Currency → Stock.Currency → Stock.Draw) (m : PMap Demo.Currency ℚ)
    (k : Demo.Currency) : Stock.Request :=
  ⟨⟨polled k, (m.get k).getD 0⟩, draw k⟩

/-- What a visit of `k` leaves. -/
def polledOne (draw : Demo.Currency → Stock.Currency → Stock.Draw) (k : Demo.Currency)
    (x : Polling) : Polling where
  availableCurrencies := x.availableCurrencies.put k
    ((query draw x.availableCurrencies k).rate x.service.1)
  service := ((query draw x.availableCurrencies k).after x.service.1,
    x.service.2 ++ [[(query draw x.availableCurrencies k).currencies]])

/-- A visit of an entry asks for it, and stores the answer. -/
theorem exec_visit_logged {x : Polling} {k : Demo.Currency}
    (hk : (x.availableCurrencies.get k).isSome) :
    (visit (logged (stockService (draw k))) k).exec x = (.ok (), polledOne draw k x) := by
  obtain ⟨val, hval⟩ := Option.isSome_iff_exists.mp hk
  have hcall : logged (stockService (draw k)) [⟨polled k, val⟩] x.service =
      (.ok [⟨polled k, Stock.Request.rate ⟨⟨polled k, val⟩, draw k⟩ x.service.1⟩],
        (Stock.Request.after ⟨⟨polled k, val⟩, draw k⟩ x.service.1,
          x.service.2 ++ [[⟨polled k, val⟩]])) := by
    rw [logged, stockService_singleton]
  rw [exec_visit_of_ok hval hcall]
  simp only [polledOne, query, hval, Option.getD_some]

/-- From `x` to `y` the entries of `keys` have been polled, all at once. -/
structure PolledAtOnce (draw : Demo.Currency → Stock.Currency → Stock.Draw)
    (keys : List Demo.Currency) (x y : Polling) : Prop where
  /-- Each entry is the answer to the request made from its old value. -/
  entry : ∀ k ∈ keys, y.availableCurrencies.get k =
    some ((query draw x.availableCurrencies k).rate x.service.1)
  other : ∀ k, k ∉ keys → y.availableCurrencies.get k = x.availableCurrencies.get k
  currencies : y.service.1.keys = x.service.1.keys
  /-- Each rate polled is what its request alone leaves. -/
  rate : ∀ k ∈ keys, y.service.1.get (polled k) =
    ((query draw x.availableCurrencies k).after x.service.1).get (polled k)
  unpolled : ∀ c, (∀ k ∈ keys, polled k ≠ c) → y.service.1.get c = x.service.1.get c
  /-- Each entry is asked for once, with its old value. -/
  asked : y.service.2 = x.service.2 ++
    keys.map fun k ↦ [(query draw x.availableCurrencies k).currencies]

namespace PolledAtOnce

variable {keys : List Demo.Currency} {x y : Polling}

theorem nil (x : Polling) : PolledAtOnce draw [] x x where
  entry _ h := absurd h List.not_mem_nil
  other _ _ := rfl
  currencies := rfl
  rate _ h := absurd h List.not_mem_nil
  unpolled _ _ := rfl
  asked := (List.append_nil _).symm

/-- The visit of one entry does not change what is asked for another. -/
theorem query_polledOne {k k' : Demo.Currency} (h : k' ≠ k) :
    query draw (polledOne draw k x).availableCurrencies k' =
      query draw x.availableCurrencies k' := by
  rw [query, query, polledOne, PMap.get_put_of_ne _ h]

theorem get_polledOne {k : Demo.Currency} {c : Stock.Currency} (h : c ≠ polled k) :
    (polledOne draw k x).service.1.get c = x.service.1.get c :=
  Stock.Request.get_after_of_ne h

/-- An entry polled first, and then the others at once, are all polled at once. -/
theorem cons {k : Demo.Currency} (hk : k ∉ keys)
    (h : PolledAtOnce draw keys (polledOne draw k x) y) :
    PolledAtOnce draw (k :: keys) x y where
  entry k' hk' := by
    rcases List.mem_cons.mp hk' with rfl | hmem
    · rw [h.other k' hk]
      exact PMap.get_put_self _ _ _
    · have hne : k' ≠ k := ne_of_mem_of_not_mem hmem hk
      rw [h.entry k' hmem, query_polledOne hne,
        Stock.Request.rate_congr (get_polledOne (polled_injective.ne hne))]
  other k' hk' := by
    rw [List.mem_cons, not_or] at hk'
    obtain ⟨hne, hmem⟩ := hk'
    rw [h.other k' hmem]
    exact PMap.get_put_of_ne _ hne _
  currencies := h.currencies.trans Stock.Request.keys_after
  rate k' hk' := by
    rcases List.mem_cons.mp hk' with rfl | hmem
    · refine h.unpolled _ ?_
      intro k hk''
      exact polled_injective.ne (ne_of_mem_of_not_mem hk'' hk)
    · have hne : k' ≠ k := ne_of_mem_of_not_mem hmem hk
      rw [h.rate k' hmem, query_polledOne hne]
      exact Stock.Request.get_after_congr (get_polledOne (polled_injective.ne hne))
  unpolled c hc := by
    rw [h.unpolled c fun k' hk' ↦ hc k' (List.mem_cons_of_mem k hk')]
    exact get_polledOne (Ne.symm (hc k List.mem_cons_self))
  asked := by
    have hrest : keys.map
          (fun k' ↦ [(query draw (polledOne draw k x).availableCurrencies k').currencies]) =
        keys.map fun k' ↦ [(query draw x.availableCurrencies k').currencies] := by
      apply List.map_congr_left
      intro k' hk'
      rw [query_polledOne (ne_of_mem_of_not_mem hk' hk)]
    rw [h.asked, hrest, List.map_cons, ← List.singleton_append, ← List.append_assoc]
    rfl

/-- What is polled at once does not depend on the order of the keys: the map and the
table of the service are determined. -/
theorem unique {keys' : List Demo.Currency} {x' y' : Polling} (h : PolledAtOnce draw keys x y)
    (h' : PolledAtOnce draw keys' x' y') (hkeys : ∀ k, k ∈ keys ↔ k ∈ keys')
    (hmap : x.availableCurrencies = x'.availableCurrencies) (htable : x.service.1 = x'.service.1) :
    y.availableCurrencies = y'.availableCurrencies ∧ y.service.1 = y'.service.1 := by
  constructor
  · ext k : 1
    by_cases hk : k ∈ keys
    · rw [h.entry k hk, h'.entry k ((hkeys k).mp hk), hmap, htable]
    · rw [h.other k hk, h'.other k (mt (hkeys k).mpr hk), hmap]
  · refine Dict.ext (by rw [h.currencies, h'.currencies, htable]) ?_
    intro c
    by_cases hc : ∃ k ∈ keys, polled k = c
    · obtain ⟨k, hk, rfl⟩ := hc
      rw [h.rate k hk, h'.rate k ((hkeys k).mp hk), hmap, htable]
    · have hnone : ∀ k ∈ keys, polled k ≠ c := fun k hk hkc ↦ hc ⟨k, hk, hkc⟩
      rw [h.unpolled c hnone, h'.unpolled c fun k hk ↦ hnone k ((hkeys k).mpr hk), htable]

/-- Polling entries that are there adds none and removes none. -/
theorem isSome_get (h : PolledAtOnce draw keys x y)
    (hkeys : ∀ k ∈ keys, (x.availableCurrencies.get k).isSome) (k : Demo.Currency) :
    (y.availableCurrencies.get k).isSome = (x.availableCurrencies.get k).isSome := by
  by_cases hk : k ∈ keys
  · rw [h.entry k hk, hkeys k hk]
    rfl
  · rw [h.other k hk]

end PolledAtOnce

variable (draw) in
/-- **A round polls its entries at once**, in whatever order it visits them. -/
theorem exec_pollRound {keys : List Demo.Currency} {x : Polling} (hnodup : keys.Nodup)
    (hkeys : ∀ k ∈ keys, (x.availableCurrencies.get k).isSome) :
    ∃ y, (pollRound draw keys).exec x = (.ok (), y) ∧ PolledAtOnce draw keys x y := by
  induction keys generalizing x with
  | nil => exact ⟨x, rfl, .nil x⟩
  | cons k keys ih =>
      obtain ⟨hk, hnodup⟩ := List.nodup_cons.mp hnodup
      obtain ⟨hsome, hkeys⟩ := List.forall_mem_cons.mp hkeys
      obtain ⟨y, hy, hround⟩ := ih (x := polledOne draw k x) hnodup
        (isSome_put_of_mem hsome hkeys _)
      refine ⟨y, ?_, hround.cons hk⟩
      rw [← hy]
      exact Code.exec_bind_of_ok (exec_visit_logged hsome) fun _ ↦ pollRound draw keys

/-- The thread and the service, without the requests kept. -/
def Polling.forget (x : Polling) : Exchange Stock.Table := ⟨x.availableCurrencies, x.service.1⟩

/-- A round is one of the step relation's, whatever each call draws. -/
theorem pollRound_steps {keys : List Demo.Currency} {x y : Polling}
    (hkeys : ∀ k ∈ keys, (x.availableCurrencies.get k).isSome)
    (h : (pollRound draw keys).exec x = (.ok (), y)) :
    ∃ es, Run PollStep ⟨.polling keys, x.forget⟩ es ⟨.polling [], y.forget⟩ := by
  induction keys generalizing x with
  | nil =>
      obtain rfl : x = y := congrArg Prod.snd h
      exact ⟨[], .nil⟩
  | cons k keys ih =>
      obtain ⟨hsome, hkeys⟩ := List.forall_mem_cons.mp hkeys
      obtain ⟨val, hval⟩ := Option.isSome_iff_exists.mp hsome
      have hvisit : (visit (stockService (draw k)) k).exec x.forget =
          (.ok (), (polledOne draw k x).forget) := by
        rw [exec_visit_of_ok (s := x.forget) hval (stockService_singleton _ _ _)]
        simp only [Polling.forget, polledOne, query, hval, Option.getD_some]
      obtain ⟨es₁, h₁⟩ := visit_steps (s := ⟨.polling (k :: keys), x.forget⟩) rfl hvisit
      have hround : (pollRound draw (k :: keys)).exec x =
          (pollRound draw keys).exec (polledOne draw k x) :=
        Code.exec_bind_of_ok (exec_visit_logged hsome) fun _ ↦ pollRound draw keys
      obtain ⟨es₂, h₂⟩ := ih (isSome_put_of_mem hsome hkeys _) (hround ▸ h)
      exact ⟨es₁ ++ es₂, h₁.append h₂⟩

/-! ## All rounds -/

/-- An order in which the entries of `m` can be iterated. -/
abbrev IterationOrder (m : PMap Demo.Currency ℚ) :=
  { keys : List Demo.Currency // Iterates m keys }

variable {m : PMap Demo.Currency ℚ}

/-- The state after `n` rounds, on the map `m` and the service's table `table`. -/
def afterPolls (draw : ℕ → Demo.Currency → Stock.Currency → Stock.Draw)
    (m : PMap Demo.Currency ℚ) (table : Stock.Table) (order : ℕ → IterationOrder m) (n : ℕ) :
    Polling :=
  ((pollRounds draw (fun r ↦ (order r).val) n).exec ⟨m, (table, [])⟩).2

/-- Polling `m` against `table` does not depend on the order in which the rounds iterate
the map. -/
structure OrderIrrelevant (draw : ℕ → Demo.Currency → Stock.Currency → Stock.Draw)
    (m : PMap Demo.Currency ℚ) (table : Stock.Table) : Prop where
  /-- No round raises. -/
  returns : ∀ order : ℕ → IterationOrder m, ∀ n,
    ((pollRounds draw (fun r ↦ (order r).val) n).exec ⟨m, (table, [])⟩).1 = .ok ()
  /-- Any orders lead to the same map, and to the same table of the service. -/
  same : ∀ order order' : ℕ → IterationOrder m, ∀ n,
    (afterPolls draw m table order n).availableCurrencies =
        (afterPolls draw m table order' n).availableCurrencies ∧
      (afterPolls draw m table order n).service.1 = (afterPolls draw m table order' n).service.1
  /-- In every round each key is asked for once, with its value after the round before. -/
  asked : ∀ order : ℕ → IterationOrder m, ∀ n, ∃ val : Demo.Currency → ℚ,
    (∀ k ∈ (order n).val,
      (afterPolls draw m table order n).availableCurrencies.get k = some (val k)) ∧
    (afterPolls draw m table order (n + 1)).service.2 =
      (afterPolls draw m table order n).service.2 ++
        (order n).val.map fun k ↦ [⟨polled k, val k⟩]
  /-- At no point of a round does the map have other keys than at the start. -/
  keys : ∀ order : ℕ → IterationOrder m, ∀ n visited todo, (order n).val = visited ++ todo →
    ∀ k, (((pollRound (draw n) visited).exec
      (afterPolls draw m table order n)).2.availableCurrencies.get k).isSome = (m.get k).isSome

section

variable {draw : ℕ → Demo.Currency → Stock.Currency → Stock.Draw} {table : Stock.Table}
  {order : ℕ → IterationOrder m}

/-- The next round, when the keys of the map are those it started with. -/
theorem pollRounds_succ {n : ℕ} {x : Polling}
    (h : (pollRounds draw (fun r ↦ (order r).val) n).exec ⟨m, (table, [])⟩ = (.ok (), x))
    (hkeys : ∀ k, (x.availableCurrencies.get k).isSome = (m.get k).isSome) :
    ∃ y, (pollRounds draw (fun r ↦ (order r).val) (n + 1)).exec ⟨m, (table, [])⟩ = (.ok (), y) ∧
      PolledAtOnce (draw n) (order n).val x y := by
  obtain ⟨hnodup, hmem⟩ := (order n).property
  obtain ⟨y, hy, hround⟩ := exec_pollRound (draw n) (x := x) hnodup
    fun k hk ↦ (hkeys k).trans ((hmem k).mp hk)
  refine ⟨y, ?_, hround⟩
  rw [pollRounds, List.range_succ, Code.exec_forM_snoc]
  exact (Code.exec_bind_of_ok h _).trans hy

variable (draw table order)

/-- After any number of rounds the map has the keys it started with. -/
theorem exec_pollRounds (n : ℕ) : ∃ x,
    (pollRounds draw (fun r ↦ (order r).val) n).exec ⟨m, (table, [])⟩ = (.ok (), x) ∧
      ∀ k, (x.availableCurrencies.get k).isSome = (m.get k).isSome := by
  induction n with
  | zero => exact ⟨_, rfl, fun _ ↦ rfl⟩
  | succ n ih =>
      obtain ⟨x, hx, hkeys⟩ := ih
      obtain ⟨y, hy, hround⟩ := pollRounds_succ hx hkeys
      refine ⟨y, hy, ?_⟩
      intro k
      rw [hround.isSome_get fun k hk ↦ (hkeys k).trans (((order n).property.mem k).mp hk)]
      exact hkeys k

theorem isSome_afterPolls (n : ℕ) (k : Demo.Currency) :
    ((afterPolls draw m table order n).availableCurrencies.get k).isSome = (m.get k).isSome := by
  obtain ⟨x, hx, hkeys⟩ := exec_pollRounds draw table order n
  rw [afterPolls, hx]
  exact hkeys k

/-- From each round to the next all entries are polled at once. -/
theorem polledAtOnce_afterPolls (n : ℕ) : PolledAtOnce (draw n) (order n).val
    (afterPolls draw m table order n) (afterPolls draw m table order (n + 1)) := by
  obtain ⟨x, hx, hkeys⟩ := exec_pollRounds draw table order n
  obtain ⟨y, hy, hround⟩ := pollRounds_succ hx hkeys
  rw [afterPolls, afterPolls, hx, hy]
  exact hround

end

/-- **The iteration order does not matter**, on any map, against any table of the service,
in any number of rounds and with any draws. -/
theorem order_irrelevant (draw : ℕ → Demo.Currency → Stock.Currency → Stock.Draw)
    (m : PMap Demo.Currency ℚ) (table : Stock.Table) : OrderIrrelevant draw m table where
  returns order n := by
    obtain ⟨x, hx, -⟩ := exec_pollRounds draw table order n
    rw [hx]
  same order order' n := by
    induction n with
    | zero => exact ⟨rfl, rfl⟩
    | succ n ih =>
        have hkeys : ∀ k, k ∈ (order n).val ↔ k ∈ (order' n).val := by
          intro k
          rw [(order n).property.mem, (order' n).property.mem]
        exact (polledAtOnce_afterPolls draw table order n).unique
          (polledAtOnce_afterPolls draw table order' n) hkeys ih.1 ih.2
  asked order n := by
    refine ⟨fun k ↦ ((afterPolls draw m table order n).availableCurrencies.get k).getD 0, ?_,
      (polledAtOnce_afterPolls draw table order n).asked⟩
    intro k hk
    have hsome := (isSome_afterPolls draw table order n k).trans
      (((order n).property.mem k).mp hk)
    obtain ⟨val, hval⟩ := Option.isSome_iff_exists.mp hsome
    simp [hval]
  keys order n visited todo hsplit k := by
    obtain ⟨hnodup, hmem⟩ := (order n).property
    rw [hsplit] at hnodup
    have hvisited : ∀ k ∈ visited,
        ((afterPolls draw m table order n).availableCurrencies.get k).isSome := by
      intro k hk
      rw [isSome_afterPolls, ← hmem k, hsplit]
      exact List.mem_append_left _ hk
    obtain ⟨y, hy, hround⟩ := exec_pollRound (draw n) (List.nodup_append.mp hnodup).1 hvisited
    rw [hy, hround.isSome_get hvisited, isSome_afterPolls]

end StockBank.Server
