import StockBank.Lib.Linearize
import StockBank.Lib.Threads
import StockBank.Stock.Simulator

/-!
# The stock service under concurrent requests

`serve` runs the service on a pool of threads, and nothing guards `allCurrencies`.
A call of `simulate` is then a sequence of single accesses to the table, and other
calls can run between any two of them: it reads a rate for each currency it visits,
and when the test passes it writes the new rate, and reads it again for the
response.  The draw and the test are local to the thread, so they belong to the
read before them.

The loop runs over the keys of the table as they are when it starts.  No call ever
adds a key, so they are the keys at any time.

The table stays within its bounds whatever the interleaving.  But a call that
writes does not look again, so a change made by another call since the read is
lost; as long as no call finds its entry changed under it, the requests behave as
if served one at a time.
-/

namespace StockBank.Stock

open Lib

universe u

variable {ι : Type u} [DecidableEq ι]

/-- What a call of `getUpdatedCurrencies` ends with. -/
abbrev Reply := Except KeyError (CurrencyData ℚ)

/-- Where a call is. -/
inductive PC
  | idle
  | /-- In the loop, with the currencies still to visit. -/
    visiting (todo : List Currency)
  | /-- The test is passed; `allCurrencies[c] = cond` is next. -/
    writing (c : Currency) (cond : ℚ)
  | /-- The new rate is written; it is read again for the response. -/
    rereading (c : Currency) (cond : ℚ)
  | /-- Finished, the response not sent yet. -/
    done (reply : Reply)
  | returned (reply : Reply)

/-- The table, and where each call is. -/
abbrev Workers (ι : Type u) := Threads Table ι PC

/-- The service when it is started. -/
def Workers.init : Workers ι := ⟨allCurrencies, fun _ ↦ .idle⟩

def Workers.Started (s : Workers ι) (i : ι) : Prop := s.pc i ≠ .idle

/-- Every call has returned, or was never received. -/
def Workers.Complete (s : Workers ι) : Prop := ∀ i, s.pc i = .idle ∨ ∃ r, s.pc i = .returned r

/-- What a step of the service shows. -/
inductive Action (ι : Type u)
  | inv (i : ι)
  | tau (i : ι)
  | write (i : ι) (c : Currency)
  | ret (i : ι) (reply : Reply)

/-- The call that takes the step. -/
def Action.actor : Action ι → ι
  | .inv i | .tau i | .write i _ | .ret i _ => i

/-- What the step says about the calls: a write is internal. -/
def Action.view : Action ι → Event ι Reply
  | .inv i => .inv i
  | .tau i => .tau i
  | .write i _ => .tau i
  | .ret i r => .ret i r

variable (calls : ι → Request)

/-- One access to the table, by one call. -/
inductive Step : Workers ι → Action ι → Workers ι → Prop
  | /-- The call is received and enters the loop. -/
    invoke {s : Workers ι} {i : ι} : s.pc i = .idle →
      Step s (.inv i) (s.move s.store i (.visiting s.store.keys))
  | /-- The rate of the next currency is read, and the new rate passes the test. -/
    pass {s : Workers ι} {i : ι} {c : Currency} {todo : List Currency} {rate : ℚ} :
      s.pc i = .visiting (c :: todo) → s.store.get c = some rate →
      Passes (calls i).currencies.curr c (rate + ((calls i).draw c).val) →
      Step s (.tau i) (s.move s.store i (.writing c (rate + ((calls i).draw c).val)))
  | /-- The rate of the next currency is read, and the loop goes on. -/
    skip {s : Workers ι} {i : ι} {c : Currency} {todo : List Currency} {rate : ℚ} :
      s.pc i = .visiting (c :: todo) → s.store.get c = some rate →
      ¬ Passes (calls i).currencies.curr c (rate + ((calls i).draw c).val) →
      Step s (.tau i) (s.move s.store i (.visiting todo))
  | /-- The next currency is not in the table. -/
    miss {s : Workers ι} {i : ι} {c : Currency} {todo : List Currency} :
      s.pc i = .visiting (c :: todo) → s.store.get c = none →
      Step s (.tau i) (s.move s.store i (.done (.error (.missing c))))
  | /-- The loop is over: the request is sent back. -/
    exhaust {s : Workers ι} {i : ι} : s.pc i = .visiting [] →
      Step s (.tau i) (s.move s.store i (.done (.ok (calls i).currencies)))
  | /-- `allCurrencies[c] = cond`. -/
    write {s : Workers ι} {i : ι} {c : Currency} {cond : ℚ} : s.pc i = .writing c cond →
      Step s (.write i c) (s.move (s.store.set c cond) i (.rereading c cond))
  | /-- The rate for the response is read. -/
    reread {s : Workers ι} {i : ι} {c : Currency} {cond rate : ℚ} :
      s.pc i = .rereading c cond → s.store.get c = some rate →
      Step s (.tau i) (s.move s.store i (.done (.ok { (calls i).currencies with value := rate })))
  | /-- The rate for the response is not in the table. -/
    rereadMiss {s : Workers ι} {i : ι} {c : Currency} {cond : ℚ} :
      s.pc i = .rereading c cond → s.store.get c = none →
      Step s (.tau i) (s.move s.store i (.done (.error (.missing c))))
  | reply {s : Workers ι} {i : ι} {r : Reply} : s.pc i = .done r →
      Step s (.ret i r) (s.move s.store i (.returned r))

/-! ## The table under any load -/

/-- What a call carries from one access to the next. -/
def Carries (q : Request) : PC → Prop
  | .visiting todo => todo.Nodup ∧ ∀ c ∈ todo, c ∈ allCurrencies.keys
  | .writing c cond => c = q.currencies.curr ∧ c ∈ allCurrencies.keys ∧ c ≠ .PLN ∧
      MIN_BOUND < cond ∧ cond < MAX_BOUND
  | .rereading c _ => c = q.currencies.curr ∧ c ∈ allCurrencies.keys
  | _ => True

variable {calls}

/-- What every step of the service keeps. -/
structure Kept (calls : ι → Request) (s : Workers ι) : Prop where
  table : s.store.InBounds
  /-- Each call carries what it may write. -/
  carries : ∀ i, Carries (calls i) (s.pc i)
  /-- An entry that is not as it was has been named by a call. -/
  named : ∀ c, s.store.get c = allCurrencies.get c ∨
    ∃ i, s.Started i ∧ (calls i).currencies.curr = c

omit [DecidableEq ι] in
theorem kept_init : Kept calls Workers.init where
  table := Table.inBounds_allCurrencies
  carries _ := trivial
  named _ := .inl rfl

section

omit [DecidableEq ι]

variable {s : Workers ι} {i : ι} (hs : Kept calls s)
include hs

/-- A call in the loop visits every currency of the table at most once. -/
theorem Kept.visiting {todo : List Currency} (hpc : s.pc i = .visiting todo) :
    todo.Nodup ∧ ∀ c ∈ todo, c ∈ allCurrencies.keys := by
  have hcarries := hs.carries i
  rwa [hpc] at hcarries

/-- A call that writes has a new rate for the currency of its request. -/
theorem Kept.writing {c : Currency} {cond : ℚ} (hpc : s.pc i = .writing c cond) :
    c = (calls i).currencies.curr ∧ c ∈ allCurrencies.keys ∧ c ≠ .PLN ∧
      MIN_BOUND < cond ∧ cond < MAX_BOUND := by
  have hcarries := hs.carries i
  rwa [hpc] at hcarries

/-- A call that has written reads the currency of its request again. -/
theorem Kept.rereading {c : Currency} {cond : ℚ} (hpc : s.pc i = .rereading c cond) :
    c = (calls i).currencies.curr ∧ c ∈ allCurrencies.keys := by
  have hcarries := hs.carries i
  rwa [hpc] at hcarries

/-- A call in the loop finds the currencies it visits. -/
theorem Kept.get_ne_none {c : Currency} (h : c ∈ allCurrencies.keys) : s.store.get c ≠ none := by
  rw [← hs.table.keys] at h
  obtain ⟨rate, hrate⟩ := Dict.exists_get_of_mem h
  simp [hrate]

end

/-- A call that moves without writing keeps the table. -/
theorem Kept.move {s : Workers ι} (hs : Kept calls s) {i : ι} {pc : PC}
    (hpc : Carries (calls i) pc) (hidle : pc ≠ .idle) : Kept calls (s.move s.store i pc) where
  table := hs.table
  carries := Threads.forall_move hpc hs.carries
  named c := (hs.named c).imp_right fun ⟨j, hj, hc⟩ ↦ ⟨j, Threads.move_ne_of_ne hidle hj, hc⟩

theorem Kept.step {s s' : Workers ι} {e : Action ι} (hs : Kept calls s) (h : Step calls s e s') :
    Kept calls s' := by
  cases h with
  | invoke hpc =>
      exact hs.move ⟨s.store.nodup_keys, fun c hc ↦ hs.table.keys ▸ hc⟩ (by simp)
  | @pass i c todo rate hpc hrate hpass =>
      exact hs.move ⟨hpass.eq, (hs.visiting hpc).2 c List.mem_cons_self,
        hs.table.ne_pln_of_passes hrate hpass, hpass.2⟩ (by simp)
  | @skip i c todo rate hpc hrate hpass =>
      obtain ⟨hnodup, hmem⟩ := hs.visiting hpc
      exact hs.move ⟨hnodup.of_cons, fun d hd ↦ hmem d (List.mem_cons_of_mem c hd)⟩ (by simp)
  | miss hpc hrate => exact hs.move trivial (by simp)
  | exhaust hpc => exact hs.move trivial (by simp)
  | @write i c cond hpc =>
      obtain ⟨hcur, hmem, hpln, hb⟩ := hs.writing hpc
      have hnext : Carries (calls i) (.rereading c cond) := ⟨hcur, hmem⟩
      have hkept := hs.move hnext (by simp)
      refine ⟨hs.table.set (hs.table.keys ▸ hmem) hpln hb, hkept.carries, ?_⟩
      intro d
      by_cases hdc : d = c
      · exact .inr ⟨i, by simp [Workers.Started], by rw [← hcur, hdc]⟩
      · rw [Threads.move_store, Dict.get_set_of_ne _ hdc]
        exact hkept.named d
  | reread hpc hrate => exact hs.move trivial (by simp)
  | rereadMiss hpc hrate => exact hs.move trivial (by simp)
  | reply hpc => exact hs.move trivial (by simp)

/-- A call is received by its invocation. -/
theorem started_step {s s' : Workers ι} {e : Action ι} {i : ι} (h : Step calls s e s')
    (hi : s'.Started i) : s.Started i ∨ e.view = .inv i := by
  cases h with
  | @invoke j hpc =>
      by_cases hij : i = j
      · subst hij; exact .inr rfl
      · rw [Workers.Started, Threads.move_pc_of_ne _ _ _ hij] at hi
        exact .inl hi
  | pass hpc | skip hpc | miss hpc | exhaust hpc | write hpc | reread hpc | rereadMiss hpc
  | reply hpc => exact .inl (Threads.ne_of_move_ne (by simp [hpc]) hi)

/-- The table after the history `es`: the keys, `PLN`, the bounds, and the entries
that no call of `es` named. -/
structure WellFormed (calls : ι → Request) (es : List (Action ι)) (t : Table) : Prop where
  keys : t.keys = allCurrencies.keys
  pln : t.get .PLN = some 1
  eur : ∃ rate, t.get .EUR = some rate ∧ MIN_BOUND < rate ∧ rate < MAX_BOUND
  chf : ∃ rate, t.get .CHF = some rate ∧ MIN_BOUND < rate ∧ rate < MAX_BOUND
  /-- An entry that no request has named is unchanged. -/
  unnamed : ∀ c, (∀ i, Invoked Action.view es i → (calls i).currencies.curr ≠ c) →
    t.get c = allCurrencies.get c

/-- **The table stays well formed** under any load and any interleaving. -/
theorem table_wellFormed {es : List (Action ι)} {s : Workers ι}
    (h : Run (Step calls) Workers.init es s) : WellFormed calls es s.store := by
  have hs : Kept calls s := h.invariant kept_init fun _ _ _ hs hstep ↦ hs.step hstep
  have hbounds : ∀ c, c ∈ allCurrencies.keys → c ≠ .PLN →
      ∃ rate, s.store.get c = some rate ∧ MIN_BOUND < rate ∧ rate < MAX_BOUND := by
    intro c hmem hc
    obtain ⟨rate, hrate⟩ := Option.ne_none_iff_exists'.mp (hs.get_ne_none hmem)
    exact ⟨rate, hrate, hs.table.bounds hc hrate⟩
  refine ⟨hs.table.keys, hs.table.pln, hbounds .EUR (by simp) (by simp),
    hbounds .CHF (by simp) (by simp), ?_⟩
  intro c hc
  refine (hs.named c).resolve_right ?_
  rintro ⟨i, hi, hci⟩
  have hnot : ¬ (Workers.init : Workers ι).Started i := fun hne ↦ hne rfl
  exact hc i (invoked_of_started hnot started_step h hi) hci

/-- A request for `c` whose draws are all `1 / 10`. -/
def sampleRequest (c : Currency) : Request := ⟨⟨c, 0⟩, fun _ ↦ tenth⟩

def raceRequests : Fin 2 → Request := fun _ ↦ sampleRequest .EUR

/-- The response both calls get: the rate that one accepted draw leads to. -/
def raceReply : Reply := .ok ⟨.EUR, 427 / 100 + 1 / 10⟩

/-- Both calls read the rate of `EUR` before either writes it. -/
def raceHistory : List (Action (Fin 2)) :=
  [.inv 0, .inv 1, .tau 0, .tau 0, .tau 1, .tau 1, .write 0 .EUR, .write 1 .EUR, .tau 0, .tau 1,
    .ret 0 raceReply, .ret 1 raceReply]

theorem skips_PLN : ¬ Passes .EUR .PLN (1 + 1 / 10) := fun h ↦ nomatch h.eq

theorem passes_EUR : Passes .EUR .EUR (427 / 100 + 1 / 10) := by
  refine ⟨rfl, ?_⟩
  norm_num [MIN_BOUND, MAX_BOUND]

theorem raceHistory_run : ∃ s : Workers (Fin 2), Run (Step raceRequests) Workers.init raceHistory s ∧
    s.Complete ∧ s.store = allCurrencies.set .EUR (427 / 100 + 1 / 10) := by
  have h₀ : Run (Step raceRequests) Workers.init [] Workers.init := .nil
  have h₁ := h₀.snoc (.invoke (i := 0) rfl)
  have h₂ := h₁.snoc (.invoke (i := 1) rfl)
  have h₃ := h₂.snoc (.skip (i := 0) rfl rfl skips_PLN)
  have h₄ := h₃.snoc (.pass (i := 0) rfl rfl passes_EUR)
  have h₅ := h₄.snoc (.skip (i := 1) rfl rfl skips_PLN)
  have h₆ := h₅.snoc (.pass (i := 1) rfl rfl passes_EUR)
  have h₇ := h₆.snoc (.write (i := 0) rfl)
  have h₈ := h₇.snoc (.write (i := 1) rfl)
  have h₉ := h₈.snoc (.reread (i := 0) rfl rfl)
  have h₁₀ := h₉.snoc (.reread (i := 1) rfl rfl)
  have h₁₁ := h₁₀.snoc (.reply (i := 0) rfl)
  refine ⟨_, h₁₁.snoc (.reply (i := 1) rfl), ?_, ?_⟩
  · intro i
    match i with
    | 0 => exact .inr ⟨_, rfl⟩
    | 1 => exact .inr ⟨_, rfl⟩
  · refine Dict.ext rfl ?_
    intro c
    cases c <;> rfl

/-- The table after the race, in which one change is lost. -/
theorem table_wellFormed_race : ∃ s : Workers (Fin 2),
    Run (Step raceRequests) Workers.init raceHistory s ∧ s.Complete ∧
      WellFormed raceRequests raceHistory s.store := by
  obtain ⟨s, h, hcomplete, -⟩ := raceHistory_run
  exact ⟨s, h, hcomplete, table_wellFormed h⟩

/-! ## One request at a time -/

def alone (calls : ι → Request) : Object Table ι Reply := fun i ↦ getUpdatedCurrencies (calls i)

/-- What the step adds to the accepted draws for `c`. -/
def Action.gain (calls : ι → Request) (c : Currency) : Action ι → ℚ
  | .write i c' => if c' = c then ((calls i).draw c).val else 0
  | _ => 0

/-- The sum of the draws for `c` that were accepted, and written. -/
def acceptedDraws (calls : ι → Request) (c : Currency) (es : List (Action ι)) : ℚ :=
  (es.map (Action.gain calls c)).sum

/-- The calls of the history `es` are answered, and leave the table, as in some
serial execution; and no accepted draw is lost. -/
structure ServedOneAtATime (calls : ι → Request) (es : List (Action ι)) (t : Table) : Prop where
  /-- Some serial order explains the responses and the table. -/
  serial : ∃ l, Serializes Action.view (alone calls) allCurrencies es t l
  /-- Every rate is its first rate plus the accepted draws. -/
  sum : ∀ c rate, allCurrencies.get c = some rate → t.get c = some (rate + acceptedDraws calls c es)

/-- The table holds what the call found, or left, at its last access to its entry. -/
def Finds (q : Request) (t : Table) : PC → Prop
  | .writing c cond => t.get c = some (cond - (q.draw c).val)
  | .rereading c cond => t.get c = some cond
  | _ => True

/-- The call that takes the step finds its entry as it was at its last access. -/
def Undisturbed (calls : ι → Request) (s : Workers ι) (e : Action ι) : Prop :=
  Finds (calls e.actor) s.store (s.pc e.actor)

omit [DecidableEq ι] in
/-- An undisturbed call writes over the rate it has read. -/
theorem Undisturbed.get_of_writing {s : Workers ι} {i : ι} {c : Currency} {cond : ℚ}
    (h : Undisturbed calls s (.write i c)) (hpc : s.pc i = .writing c cond) :
    s.store.get c = some (cond - ((calls i).draw c).val) := by
  simpa only [Undisturbed, Action.actor, hpc, Finds] using h

omit [DecidableEq ι] in
/-- An undisturbed call reads back the rate it has written. -/
theorem Undisturbed.get_of_rereading {s : Workers ι} {i : ι} {c : Currency} {cond : ℚ}
    (h : Undisturbed calls s (.tau i)) (hpc : s.pc i = .rereading c cond) :
    s.store.get c = some cond := by
  simpa only [Undisturbed, Action.actor, hpc, Finds] using h

/-- The response a call is bound to give: once it has passed its currency without
accepting the draw, or has written the new rate. -/
def committed (q : Request) : PC → Option Reply
  | .visiting todo => if q.currencies.curr ∈ todo then none else some (.ok q.currencies)
  | .rereading _ cond => some (.ok { q.currencies with value := cond })
  | .done r => some r
  | .returned r => some r
  | _ => none

omit [DecidableEq ι] in
/-- A request for a currency that is not in the table is sent back. -/
theorem alone_of_get_none {t : Table} {i : ι} (h : t.get (calls i).currencies.curr = none) :
    alone calls i t = (.ok (calls i).currencies, t) :=
  getUpdatedCurrencies_of_not_accepted (by rw [Request.accepted, h, Option.bind_none])

omit [DecidableEq ι] in
/-- A request whose new rate does not pass the test is sent back. -/
theorem alone_of_not_passes {t : Table} {i : ι} {rate : ℚ}
    (h : t.get (calls i).currencies.curr = some rate)
    (hpass : ¬ Passes (calls i).currencies.curr (calls i).currencies.curr
      (rate + ((calls i).draw (calls i).currencies.curr).val)) :
    alone calls i t = (.ok (calls i).currencies, t) := by
  refine getUpdatedCurrencies_of_not_accepted (Request.accepted_eq_none h ?_)
  intro hb
  exact hpass ⟨rfl, hb⟩

/-- A step of a call that finds its entry as it was is silent, or is the point at
which its call takes effect. -/
theorem step_advance {s s' : Workers ι} {e : Action ι} (hs : Kept calls s)
    (h : restrict (Step calls) (Undisturbed calls) s e s') :
    (s'.store = s.store ∧
      (fun i ↦ committed (calls i) (s'.pc i)) = fun i ↦ committed (calls i) (s.pc i)) ∨
    ∃ i r, committed (calls i) (s.pc i) = none ∧ alone calls i s.store = (r, s'.store) ∧
      (fun i ↦ committed (calls i) (s'.pc i)) =
        Function.update (fun i ↦ committed (calls i) (s.pc i)) i (some r) := by
  obtain ⟨hstep, hfinds⟩ := h
  have hsilent : ∀ {i pc}, committed (calls i) pc = committed (calls i) (s.pc i) →
      (fun j ↦ committed (calls j) ((s.move s.store i pc).pc j)) =
        fun j ↦ committed (calls j) (s.pc j) := by
    intro i pc h
    exact Threads.family_move_eq (fun j ↦ committed (calls j)) h
  have hcommit : ∀ {i store pc r}, committed (calls i) pc = some r →
      (fun j ↦ committed (calls j) ((s.move store i pc).pc j)) =
        Function.update (fun j ↦ committed (calls j) (s.pc j)) i (some r) := by
    rintro i store pc r h
    rw [← h]
    exact Threads.family_move fun j ↦ committed (calls j)
  cases hstep with
  | @invoke i hpc =>
      by_cases hmem : (calls i).currencies.curr ∈ s.store.keys
      · exact .inl ⟨rfl, hsilent (by rw [hpc]; exact if_pos hmem)⟩
      · -- a currency that is not in the table is never visited
        refine .inr ⟨i, _, by rw [hpc]; rfl, alone_of_get_none ?_, hcommit (if_neg hmem)⟩
        exact Option.not_isSome_iff_eq_none.mp fun h ↦ hmem ((s.store.mem_keys _).mpr h)
  | @pass i c todo rate hpc hrate hpass =>
      refine .inl ⟨rfl, hsilent ?_⟩
      rw [hpc, hpass.eq]
      exact (if_pos List.mem_cons_self).symm
  | @skip i c todo rate hpc hrate hpass =>
      by_cases hc : c = (calls i).currencies.curr
      · subst hc
        refine .inr ⟨i, _, ?_, alone_of_not_passes hrate hpass,
          hcommit (if_neg (List.nodup_cons.mp (hs.visiting hpc).1).1)⟩
        rw [hpc]
        exact if_pos List.mem_cons_self
      · refine .inl ⟨rfl, hsilent ?_⟩
        rw [hpc]
        simp only [committed, List.mem_cons, Ne.symm hc, false_or]
  | @miss i c todo hpc hrate =>
      exact absurd hrate (hs.get_ne_none ((hs.visiting hpc).2 c List.mem_cons_self))
  | exhaust hpc =>
      refine .inl ⟨rfl, hsilent ?_⟩
      rw [hpc]
      simp [committed]
  | @write i c cond hpc =>
      obtain ⟨rfl, -, -, hb⟩ := hs.writing hpc
      refine .inr ⟨i, _, by rw [hpc]; rfl, getUpdatedCurrencies_of_accepted ?_, hcommit rfl⟩
      exact Request.accepted_eq_some_iff.mpr
        ⟨_, hfinds.get_of_writing hpc, sub_add_cancel _ _, hb⟩
  | @reread i c cond rate hpc hrate =>
      have hfound := hfinds.get_of_rereading hpc
      obtain rfl : rate = cond := by rw [hrate] at hfound; exact Option.some.inj hfound
      exact .inl ⟨rfl, hsilent (by rw [hpc]; rfl)⟩
  | @rereadMiss i c cond hpc hrate =>
      exact absurd hrate (hs.get_ne_none (hs.rereading hpc).2)
  | reply hpc => exact .inl ⟨rfl, hsilent (by rw [hpc]; rfl)⟩

/-- The calls have commit points, in the runs in which each finds its entry as it
was. -/
def commitPoints (calls : ι → Request) :
    CommitPoints (restrict (Step calls) (Undisturbed calls)) Action.view (alone calls) where
  abs s := s.store
  committed s i := committed (calls i) (s.pc i)
  started := Workers.Started
  inv := Kept calls
  inv_step hs h := hs.step h.1
  advance hs h := step_advance hs h
  started_step h hi := started_step h.1 hi
  committed_started := by
    intro s i _ h hidle
    simp [hidle, committed] at h
  ret_committed := by
    rintro s e s' i r - ⟨h, -⟩ he
    cases h with
    | reply hpc =>
        cases he
        simp [hpc, committed]
    | _ => cases he
  inv_committed := by
    rintro s e s' i - ⟨h, -⟩ he
    cases h with
    | invoke hpc =>
        cases he
        simp [hpc, committed]
    | _ => cases he

omit [DecidableEq ι] in
theorem acceptedDraws_snoc (c : Currency) (es : List (Action ι)) (e : Action ι) :
    acceptedDraws calls c (es ++ [e]) = acceptedDraws calls c es + e.gain calls c := by
  simp [acceptedDraws]

/-- A step moves every rate by its gain. -/
theorem get_step {s s' : Workers ι} {e : Action ι} {c : Currency} {rate : ℚ}
    (h : restrict (Step calls) (Undisturbed calls) s e s') (hrate : s.store.get c = some rate) :
    s'.store.get c = some (rate + e.gain calls c) := by
  obtain ⟨hstep, hfinds⟩ := h
  cases hstep with
  | @write i c' cond hpc =>
      by_cases hc : c' = c
      · subst hc
        have hfound := hfinds.get_of_writing hpc
        obtain rfl : rate = cond - ((calls i).draw c').val := by
          rw [hrate] at hfound
          exact Option.some.inj hfound
        simp [Action.gain]
      · simpa [Action.gain, hc, Ne.symm hc] using hrate
  | _ => simpa [Action.gain] using hrate

theorem get_run {es : List (Action ι)} {s : Workers ι} {c : Currency} {rate : ℚ}
    (h : Run (restrict (Step calls) (Undisturbed calls)) Workers.init es s)
    (hrate : allCurrencies.get c = some rate) :
    s.store.get c = some (rate + acceptedDraws calls c es) := by
  induction h with
  | nil => simpa [acceptedDraws, Workers.init] using hrate
  | snoc _ hs ih => rw [get_step hs ih, acceptedDraws_snoc, add_assoc]

/-- **The requests behave as if served one at a time** in every run in which each
call that writes, or reads its new rate again, finds its entry as it was at its last
access. -/
theorem servedOneAtATime {es : List (Action ι)} {s : Workers ι}
    (h : Run (restrict (Step calls) (Undisturbed calls)) Workers.init es s) :
    ServedOneAtATime calls es s.store where
  serial := by
    obtain ⟨l, hl⟩ := (commitPoints calls).linearized kept_init (fun _ ↦ rfl)
      (fun _ hne ↦ hne rfl) h
    exact ⟨l, hl.toSerializes⟩
  sum _ _ hrate := get_run h hrate

def pairRequests : Fin 2 → Request
  | 0 => sampleRequest .EUR
  | 1 => sampleRequest .CHF

theorem skips_EUR : ¬ Passes .CHF .EUR (427 / 100 + 1 / 10) := fun h ↦ nomatch h.eq

theorem passes_CHF : Passes .CHF .CHF (374 / 100 + 1 / 10) := by
  refine ⟨rfl, ?_⟩
  norm_num [MIN_BOUND, MAX_BOUND]

/-- Two calls whose accesses alternate, on different entries. -/
def pairHistory : List (Action (Fin 2)) :=
  [.inv 0, .inv 1, .tau 0, .tau 0, .tau 1, .tau 1, .tau 1, .write 0 .EUR, .write 1 .CHF, .tau 0,
    .tau 1, .ret 0 (.ok ⟨.EUR, 427 / 100 + 1 / 10⟩), .ret 1 (.ok ⟨.CHF, 374 / 100 + 1 / 10⟩)]

theorem pairHistory_run : ∃ s : Workers (Fin 2),
    Run (restrict (Step pairRequests) (Undisturbed pairRequests)) Workers.init pairHistory s ∧
      s.Complete := by
  have h₀ : Run (restrict (Step pairRequests) (Undisturbed pairRequests)) Workers.init []
    Workers.init := .nil
  have h₁ := h₀.snoc ⟨.invoke (i := 0) rfl, trivial⟩
  have h₂ := h₁.snoc ⟨.invoke (i := 1) rfl, trivial⟩
  have h₃ := h₂.snoc ⟨.skip (i := 0) rfl rfl (fun h ↦ nomatch h.eq), trivial⟩
  have h₄ := h₃.snoc ⟨.pass (i := 0) rfl rfl passes_EUR, trivial⟩
  have h₅ := h₄.snoc ⟨.skip (i := 1) rfl rfl (fun h ↦ nomatch h.eq), trivial⟩
  have h₆ := h₅.snoc ⟨.skip (i := 1) rfl rfl skips_EUR, trivial⟩
  have h₇ := h₆.snoc ⟨.pass (i := 1) rfl rfl passes_CHF, trivial⟩
  have h₈ := h₇.snoc ⟨.write (i := 0) rfl,
    congrArg some (add_sub_cancel_right (427 / 100) (1 / 10)).symm⟩
  have h₉ := h₈.snoc ⟨.write (i := 1) rfl,
    congrArg some (add_sub_cancel_right (374 / 100) (1 / 10)).symm⟩
  have h₁₀ := h₉.snoc ⟨.reread (i := 0) rfl rfl, rfl⟩
  have h₁₁ := h₁₀.snoc ⟨.reread (i := 1) rfl rfl, rfl⟩
  have h₁₂ := h₁₁.snoc ⟨.reply (i := 0) rfl, trivial⟩
  refine ⟨_, h₁₂.snoc ⟨.reply (i := 1) rfl, trivial⟩, ?_⟩
  intro i
  match i with
  | 0 => exact .inr ⟨_, rfl⟩
  | 1 => exact .inr ⟨_, rfl⟩

/-- Both draws of that history are accepted, and none is lost. -/
theorem servedOneAtATime_pair : ∃ s : Workers (Fin 2),
    Run (restrict (Step pairRequests) (Undisturbed pairRequests)) Workers.init pairHistory s ∧
      s.Complete ∧ ServedOneAtATime pairRequests pairHistory s.store := by
  obtain ⟨s, h, hcomplete⟩ := pairHistory_run
  exact ⟨s, h, hcomplete, servedOneAtATime h⟩

/-- Served one at a time, the two requests for `EUR` move its rate twice. -/
theorem get_exec_race (i j : Fin 2) :
    ((alone raceRequests).exec [i, j] allCurrencies).get .EUR = some (427 / 100 + 1 / 10 + 1 / 10) := by
  have hfirst : (sampleRequest .EUR).accepted allCurrencies = some (427 / 100 + 1 / 10) := by
    refine Request.accepted_eq_some_iff.mpr ⟨427 / 100, rfl, rfl, ?_⟩
    norm_num [MIN_BOUND, MAX_BOUND]
  have hsecond : (sampleRequest .EUR).accepted (allCurrencies.set .EUR (427 / 100 + 1 / 10)) =
      some (427 / 100 + 1 / 10 + 1 / 10) := by
    refine Request.accepted_eq_some_iff.mpr ⟨427 / 100 + 1 / 10, rfl, rfl, ?_⟩
    norm_num [MIN_BOUND, MAX_BOUND]
  have halone : ∀ k, alone raceRequests k = getUpdatedCurrencies (sampleRequest .EUR) :=
    fun _ ↦ rfl
  rw [Object.exec_cons, Object.exec_cons, Object.exec_nil, halone, halone,
    getUpdatedCurrencies_of_accepted hfirst]
  exact congrArg (·.2.get .EUR) (getUpdatedCurrencies_of_accepted hsecond)

/-- One of two changes is lost: no serial order leads to the table, and the rate is
not the first rate plus the accepted draws. -/
theorem race_not_servedOneAtATime : ∃ s : Workers (Fin 2),
    Run (Step raceRequests) Workers.init raceHistory s ∧ s.Complete ∧
      (¬ ∃ l, Serializes Action.view (alone raceRequests) allCurrencies raceHistory s.store l) ∧
      s.store.get .EUR ≠ some (427 / 100 + acceptedDraws raceRequests .EUR raceHistory) := by
  obtain ⟨s, hrun, hcomplete, hstore⟩ := raceHistory_run
  have hrate : s.store.get .EUR = some (427 / 100 + 1 / 10) := by rw [hstore, Dict.get_set_self]
  refine ⟨s, hrun, hcomplete, ?_, ?_⟩
  · rintro ⟨l, hl⟩
    have h₀ : 0 ∈ l := hl.returned 0 raceReply ⟨.ret 0 raceReply, by simp [raceHistory], rfl⟩
    have h₁ : 1 ∈ l := hl.returned 1 raceReply ⟨.ret 1 raceReply, by simp [raceHistory], rfl⟩
    have hperm : l.Perm [0, 1] := by
      apply (List.perm_ext_iff_of_nodup hl.nodup (by decide)).mpr
      intro i
      match i with
      | 0 => simp [h₀]
      | 1 => simp [h₁]
    obtain ⟨i, j, rfl⟩ := List.length_eq_two.mp hperm.length_eq
    have hserial := get_exec_race i j
    rw [hl.exec, hrate] at hserial
    norm_num at hserial
  · rw [hrate]
    norm_num [acceptedDraws, raceHistory, Action.gain, raceRequests, sampleRequest, tenth]

end StockBank.Stock
