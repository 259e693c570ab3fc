import StockBank.Server.AccountsCreator

/-!
# The two stores of the factory

What holds of the adapter and of `createdAccounts` after any list of calls:
registered servants stay as they are, an entry agrees with the servant its proxy
reaches, and, as long as no PESEL is used on both sides of `PREMIUM_MIN_LIMIT`,
a PESEL has one account for good.

The adapter and the map are keyed differently, so the last fact is conditional.
The adapter refuses a second account of the same *tier*; an account of the other
tier is registered beside the first and takes over its entry.

A creation that is refused has drawn its balance and its key and built a servant by
then, but it leaves nothing in either store.
-/

namespace StockBank.Server

open Lib Demo Java Ice

/-! ## Servants -/

/-- What is under an identity of the adapter: the factory in its own category, and
accounts under their PESEL and tier. -/
structure ServantsKept (s : Bank) : Prop where
  pesel : ∀ {i b}, s.adapter.find i = some (.account b) → b.toAccount.pesel = i.name
  /-- An account is registered in the category of its tier. -/
  category : ∀ {i b}, s.adapter.find i = some (.account b) → i.category = category b.isPremium
  name_ne : ∀ {i b}, s.adapter.find i = some (.account b) → i.name ≠ ""
  /-- The factory is in a category of its own. -/
  factory : ∀ {i}, s.adapter.find i = some .accountsCreator → i.category = "accfac"

/-- At the start the adapter holds the factory and nothing else. -/
theorem find_start {i : Identity} {x : Servant} (h : start.adapter.find i = some x) :
    x = .accountsCreator ∧ i.category = "accfac" := by
  by_cases hi : i = ⟨"accountfactory", "accfac"⟩
  · subst hi
    exact ⟨(Option.some.inj ((ObjectAdapter.find_insert_self _ _ _).symm.trans h)).symm, rfl⟩
  · rw [start, ObjectAdapter.find_insert_of_ne _ _ hi] at h
    cases h

theorem servantsKept_start : ServantsKept start where
  pesel h := nomatch (find_start h).1
  category h := nomatch (find_start h).1
  name_ne h := nomatch (find_start h).1
  factory h := (find_start h).2

/-- What the adapter holds after a registration. -/
theorem find_register {s : Bank} {a : Creation} {i : Identity} {x : Servant}
    (h : (s.register a).adapter.find i = some x) :
    (i = a.identity ∧ x = .account a.servant) ∨ s.adapter.find i = some x := by
  by_cases hi : i = a.identity
  · subst hi
    rw [Bank.register_adapter, ObjectAdapter.find_insert_self] at h
    exact .inl ⟨rfl, (Option.some.inj h).symm⟩
  · rw [Bank.register_adapter, ObjectAdapter.find_insert_of_ne _ _ hi] at h
    exact .inr h

theorem ServantsKept.register {s : Bank} (hs : ServantsKept s) {a : Creation}
    (ha : ¬ Refused a s) : ServantsKept (s.register a) where
  pesel h := by
    rcases find_register h with ⟨rfl, hb⟩ | h
    · cases hb; simp
    · exact hs.pesel h
  category h := by
    rcases find_register h with ⟨rfl, hb⟩ | h
    · cases hb; simp
    · exact hs.category h
  name_ne h := by
    rcases find_register h with ⟨rfl, -⟩ | h
    · exact fun hp ↦ ha (.inl hp)
    · exact hs.name_ne h
  factory h := by
    rcases find_register h with ⟨-, hb⟩ | h
    · cases hb
    · exact hs.factory h

theorem servantsKept (cs : List Call) : ServantsKept (dispatch.exec cs start) :=
  exec_invariant servantsKept_start fun _ _ _ hs ha ↦ hs.register ha

/-- A taken identity of a creation belongs to an account with its PESEL. -/
theorem ServantsKept.account_of_held {s : Bank} (hs : ServantsKept s) {a : Creation}
    (h : s.adapter.find a.identity ≠ none) :
    ∃ b, s.adapter.find a.identity = some (.account b) ∧ b.toAccount.pesel = a.pesel := by
  obtain ⟨x, hx⟩ := Option.ne_none_iff_exists'.mp h
  cases x with
  | accountsCreator =>
      have hcat := hs.factory hx
      rw [Creation.identity_category] at hcat
      cases hp : a.premium <;> rw [hp] at hcat <;> exact absurd hcat (by decide)
  | account b => exact ⟨b, hx, hs.pesel hx⟩

/-- A registered servant stays registered, unchanged. -/
theorem find_exec {s : Bank} {i : Identity} {x : Servant} (h : s.adapter.find i = some x)
    (cs : List Call) : (dispatch.exec cs s).adapter.find i = some x := by
  refine exec_invariant (I := fun s ↦ s.adapter.find i = some x) h ?_
  intro a s _ hs ha
  have hne : i ≠ a.identity := by
    rintro rfl
    exact ha (.inr (by rw [hs]; exact Option.some_ne_none x))
  rw [Bank.register_adapter, ObjectAdapter.find_insert_of_ne _ _ hne, hs]

/-- After a creation with a PESEL, refused or not, its identity is taken for good. -/
theorem held_of_mem {cs : List Call} {a : Creation} (h : .createAccount a ∈ cs)
    (hp : a.pesel ≠ "") (s : Bank) : (dispatch.exec cs s).adapter.find a.identity ≠ none := by
  obtain ⟨before, after, rfl⟩ := List.append_of_mem h
  rw [Object.exec_append, Object.exec_cons]
  have hheld : (dispatch (.createAccount a) (dispatch.exec before s)).2.adapter.find a.identity ≠
      none := by
    by_cases hr : Refused a (dispatch.exec before s)
    · obtain ⟨_, he⟩ := dispatch_of_refused hr
      rw [he]
      exact hr.resolve_left hp
    · rw [dispatch_of_not_refused hr, Bank.register_adapter, ObjectAdapter.find_insert_self]
      exact Option.some_ne_none _
  obtain ⟨x, hx⟩ := Option.ne_none_iff_exists'.mp hheld
  rw [find_exec hx]
  exact Option.some_ne_none x

/-! ## Entries -/

/-- No creation for `p` in this list returns. -/
def AllRefused (p : String) (cs : List Call) (s : Bank) : Prop :=
  ∀ before a after, cs = before ++ .createAccount a :: after → a.pesel = p →
    ∀ r, (dispatch (.createAccount a) (dispatch.exec before s)).1 ≠ .createAccount (.ok r)

/-- One more call that is not a creation for `p` that returns. -/
theorem AllRefused.snoc {p : String} {cs : List Call} {s : Bank} {c : Call}
    (h : AllRefused p cs s) (hc : ∀ a, c = .createAccount a → a.pesel = p →
      ∀ r, (dispatch c (dispatch.exec cs s)).1 ≠ .createAccount (.ok r)) :
    AllRefused p (cs ++ [c]) s := by
  intro before a after hsplit hp r
  rcases List.eq_nil_or_concat after with rfl | ⟨after, c', rfl⟩
  · obtain ⟨rfl, hlast⟩ := List.append_inj' hsplit rfl
    rw [← List.singleton_inj.mp hlast]
    exact hc a (List.singleton_inj.mp hlast) hp r
  · rw [List.concat_eq_append, ← List.cons_append, ← List.append_assoc] at hsplit
    obtain ⟨hsplit, -⟩ := List.append_inj' hsplit rfl
    exact h before a after hsplit hp r

/-- **The call that wrote an entry.**  An entry for `p` was returned by a creation
for `p`, and no later creation for `p` has returned. -/
theorem exists_writer {cs : List Call} {p : String} {e : CreatedAccount}
    (h : (dispatch.exec cs start).createdAccounts.get p = some e) :
    ∃ before a after, cs = before ++ .createAccount a :: after ∧ a.pesel = p ∧
      (dispatch (.createAccount a) (dispatch.exec before start)).1 = .createAccount (.ok e) ∧
      AllRefused p after (dispatch.exec (before ++ [.createAccount a]) start) := by
  induction cs using List.reverseRecOn with
  | nil => cases h
  | append_singleton cs c ih =>
      -- the last call wrote the entry, or left it and the writer is an earlier one
      have hkeep : (dispatch.exec cs start).createdAccounts.get p = some e →
          (∀ a, c = .createAccount a → a.pesel = p → ∀ r,
            (dispatch c (dispatch.exec cs start)).1 ≠ .createAccount (.ok r)) →
          ∃ before a after, cs ++ [c] = before ++ .createAccount a :: after ∧ a.pesel = p ∧
            (dispatch (.createAccount a) (dispatch.exec before start)).1 =
              .createAccount (.ok e) ∧
            AllRefused p after (dispatch.exec (before ++ [.createAccount a]) start) := by
        intro hold hlast
        obtain ⟨before, a, after, rfl, hp, hr, hafter⟩ := ih hold
        refine ⟨before, a, after ++ [c], by simp, hp, hr, hafter.snoc ?_⟩
        simpa using hlast
      rw [Object.exec_append, Object.exec_cons, Object.exec_nil] at h
      cases c with
      | getAccount q => exact hkeep h fun a ha ↦ nomatch ha
      | createAccount a =>
          by_cases hr : Refused a (dispatch.exec cs start)
          · obtain ⟨x, hx⟩ := dispatch_of_refused hr
            rw [hx] at h
            apply hkeep h
            intro a' _ _ r hc
            rw [hx] at hc
            cases hc
          · rw [dispatch_of_not_refused hr, Bank.register_createdAccounts] at h
            by_cases hp : p = a.pesel
            · subst hp
              rw [PMap.get_put_self] at h
              obtain rfl := Option.some.inj h
              refine ⟨cs, a, [], rfl, rfl, by rw [dispatch_of_not_refused hr], ?_⟩
              intro before a' after hsplit
              simp at hsplit
            · rw [PMap.get_put_of_ne _ hp] at h
              exact hkeep h fun a' ha' hp' ↦ absurd (by cases ha'; exact hp'.symm) hp

/-- The converse: what the last creation for `p` returned is the entry. -/
theorem entry_of_allRefused {before after : List Call} {a : Creation} {e : CreatedAccount}
    (hr : (dispatch (.createAccount a) (dispatch.exec before start)).1 = .createAccount (.ok e))
    (hafter : AllRefused a.pesel after (dispatch.exec (before ++ [.createAccount a]) start)) :
    (dispatch.exec (before ++ .createAccount a :: after) start).createdAccounts.get a.pesel =
      some e := by
  obtain ⟨hok, rfl⟩ := entry_of_reply_ok hr
  rw [List.append_cons, Object.exec_append]
  induction after using List.reverseRecOn with
  | nil => simp [dispatch_of_not_refused hok]
  | append_singleton after c ih =>
      have hold := ih fun before' a' after' hsplit ↦
        hafter before' a' (after' ++ [c]) (by rw [hsplit]; simp)
      rw [Object.exec_append, Object.exec_cons, Object.exec_nil]
      cases c with
      | getAccount q => exact hold
      | createAccount a' =>
          by_cases hr' : Refused a' (dispatch.exec after
              (dispatch.exec (before ++ [.createAccount a]) start))
          · obtain ⟨x, hx⟩ := dispatch_of_refused hr'
            rw [hx]
            exact hold
          · have hp : a.pesel ≠ a'.pesel := fun hp ↦
              hafter after a' [] rfl hp.symm a'.entry (by rw [dispatch_of_not_refused hr'])
            rw [dispatch_of_not_refused hr', Bank.register_createdAccounts,
              PMap.get_put_of_ne _ hp]
            exact hold

/-- The entry `e` for `p`, against the servant `b` its proxy reaches in category
`cat`, and against the income declared when it was written. -/
structure Agrees (s : Bank) (p : String) (e : CreatedAccount) (declaredIncome : Money)
    (cat : String) (b : AccountServant) : Prop where
  /-- The proxy denotes the identity. -/
  proxy : e.account.map AccountPrx.ident = some ⟨p, cat⟩
  /-- The adapter holds the servant under the identity. -/
  registered : s.adapter.find ⟨p, cat⟩ = some (.account b)
  pesel : b.toAccount.pesel = p
  key : b.toAccount.key = e.key
  /-- The flag is the category. -/
  flag_iff : e.isPremium = true ↔ cat = "premium"
  /-- The category is the class of the servant. -/
  category_iff : cat = "premium" ↔ b.IsPremiumAccount
  /-- The class of the servant is what it answers. -/
  class_iff : b.IsPremiumAccount ↔ b.isPremium = true
  /-- The servant answers what the declared income decided. -/
  isPremium_iff : b.isPremium = true ↔ PREMIUM_MIN_LIMIT ≤ declaredIncome.value
  key_eq : ∃ n : ℤ, 1000 ≤ n ∧ n ≤ 2000 ∧ e.key = toString n
  currency : b.getAccountStatus.currency = declaredIncome.currency
  value : 0 ≤ b.getAccountStatus.value ∧ b.getAccountStatus.value ≤ 999

theorem Creation.key_servant (a : Creation) :
    ∃ n : ℤ, 1000 ≤ n ∧ n ≤ 2000 ∧ a.servant.toAccount.key = toString n := by
  have hkey : a.servant.toAccount.key =
      (Account.new a.firstName a.lastName a.pesel a.balance a.keyDraw).key := by
    unfold servant; split <;> rfl
  rw [hkey]
  exact Account.key_new _ _ _ _ _

theorem Creation.balance_value (a : Creation) : 0 ≤ a.balance.value ∧ a.balance.value ≤ 999 := by
  have h := toInt_random_mul a.balanceDraw (n := 1000) (by decide)
  exact ⟨h.1, Int.lt_add_one_iff.mp h.2⟩

/-- A creation writes an entry that agrees with the servant it registers. -/
theorem agrees_register (s : Bank) (a : Creation) :
    Agrees (s.register a) a.pesel a.entry a.declaredIncome (category a.premium) a.servant where
  proxy := by simp [Creation.identity]
  registered := ObjectAdapter.find_insert_self _ _ _
  pesel := a.servant_pesel
  key := rfl
  flag_iff := by
    rw [Creation.entry_isPremium]
    cases a.premium <;> simp [category]
  category_iff := by
    rw [← AccountServant.isPremium_iff, Creation.servant_isPremium]
    cases a.premium <;> simp [category]
  class_iff := (AccountServant.isPremium_iff _).symm
  isPremium_iff := by
    rw [Creation.servant_isPremium, Creation.premium, isPremium, decide_eq_true_iff, ge_iff_le]
  key_eq := a.key_servant
  currency := by rw [Creation.servant_getAccountStatus]; rfl
  value := by rw [Creation.servant_getAccountStatus]; exact a.balance_value

theorem Agrees.exec {s : Bank} {p : String} {e : CreatedAccount} {m : Money} {cat : String}
    {b : AccountServant} (h : Agrees s p e m cat b) (cs : List Call) :
    Agrees (dispatch.exec cs s) p e m cat b :=
  { h with registered := find_exec h.registered cs }

/-- The entry for `p` agrees with the servant of the creation that wrote it. -/
theorem agrees_of_entry {cs : List Call} {p : String} {e : CreatedAccount}
    (h : (dispatch.exec cs start).createdAccounts.get p = some e) :
    ∃ before a after, cs = before ++ .createAccount a :: after ∧ a.pesel = p ∧
      (dispatch (.createAccount a) (dispatch.exec before start)).1 = .createAccount (.ok e) ∧
      AllRefused p after (dispatch.exec (before ++ [.createAccount a]) start) ∧
      Agrees (dispatch.exec cs start) p e a.declaredIncome (category a.premium) a.servant := by
  obtain ⟨before, a, after, rfl, rfl, hr, hafter⟩ := exists_writer h
  obtain ⟨hok, rfl⟩ := entry_of_reply_ok hr
  refine ⟨before, a, after, rfl, rfl, hr, hafter, ?_⟩
  rw [Object.exec_append, Object.exec_cons, dispatch_of_not_refused hok]
  exact (agrees_register _ a).exec after

/-- **Registry, proxy and servant agree.**  In every reachable state, an entry for
`p` was written by a creation for `p` that no later one has overwritten; its proxy
reaches an account servant with which it agrees in key and in tier; and what the
servant holds stays the same for the rest of the run. -/
theorem entry_agrees {cs : List Call} {p : String} {e : CreatedAccount}
    (h : (dispatch.exec cs start).createdAccounts.get p = some e) :
    ∃ before a after, cs = before ++ .createAccount a :: after ∧ a.pesel = p ∧
      (dispatch (.createAccount a) (dispatch.exec before start)).1 = .createAccount (.ok e) ∧
      AllRefused p after (dispatch.exec (before ++ [.createAccount a]) start) ∧
      ∃ cat b, Agrees (dispatch.exec cs start) p e a.declaredIncome cat b ∧
        ∀ later, ∃ b', (dispatch.exec (cs ++ later) start).adapter.find ⟨p, cat⟩ =
          some (.account b') ∧ b'.getAccountStatus = b.getAccountStatus := by
  obtain ⟨before, a, after, hcs, hp, hr, hafter, hagrees⟩ := agrees_of_entry h
  refine ⟨before, a, after, hcs, hp, hr, hafter, _, _, hagrees, fun later ↦ ⟨a.servant, ?_, rfl⟩⟩
  rw [Object.exec_append]
  exact find_exec hagrees.registered later

/-- A standard account, a premium account that takes over its entry, and a standard account that
is refused. -/
def overwrittenHistory : List Call :=
  [.createAccount (sampleCreation "44051401458" 500),
    .createAccount (sampleCreation "44051401458" 1500),
    .createAccount (sampleCreation "44051401458" 700)]

/-- The entry after that history is the one of the premium account. -/
theorem entry_agrees_sample :
    (dispatch.exec overwrittenHistory start).createdAccounts.get "44051401458" =
        some (sampleCreation "44051401458" 1500).entry ∧
      ∃ before a after, overwrittenHistory = before ++ .createAccount a :: after ∧
        a.pesel = "44051401458" ∧
        (dispatch (.createAccount a) (dispatch.exec before start)).1 =
          .createAccount (.ok (sampleCreation "44051401458" 1500).entry) ∧
        AllRefused "44051401458" after (dispatch.exec (before ++ [.createAccount a]) start) ∧
        ∃ cat b, Agrees (dispatch.exec overwrittenHistory start) "44051401458"
            (sampleCreation "44051401458" 1500).entry a.declaredIncome cat b ∧
          ∀ later, ∃ b', (dispatch.exec (overwrittenHistory ++ later) start).adapter.find
              ⟨"44051401458", cat⟩ = some (.account b') ∧
            b'.getAccountStatus = b.getAccountStatus := by
  have hentry : (dispatch.exec overwrittenHistory start).createdAccounts.get "44051401458" =
      some (sampleCreation "44051401458" 1500).entry := rfl
  exact ⟨hentry, entry_agrees hentry⟩

/-! ## Failed registrations -/

/-- The call ended with an exception. -/
def Reply.raises : Reply → Bool
  | .createAccount (.error _) => true
  | _ => false

/-- The creations that raise are those that are refused. -/
theorem raises_iff (a : Creation) (s : Bank) :
    (dispatch (.createAccount a) s).1.raises = true ↔ Refused a s := by
  by_cases hr : Refused a s
  · obtain ⟨e, he⟩ := dispatch_of_refused hr
    rw [he]
    exact iff_of_true rfl hr
  · rw [dispatch_of_not_refused hr]
    exact iff_of_false (fun h ↦ nomatch h) hr

/-- A call that raises leaves both stores as they were. -/
theorem dispatch_of_raises (c : Call) (s : Bank) (h : (dispatch c s).1.raises = true) :
    (dispatch c s).2 = s := by
  cases c with
  | getAccount p => rfl
  | createAccount a =>
      obtain ⟨e, he⟩ := dispatch_of_refused ((raises_iff a s).mp h)
      rw [he]

/-- In the run `cs` a failed registration never happened: a creation raises for one of
two reasons only, and the run without the calls that raised (`rest`) is the same run. -/
structure FailuresNeverHappened (cs rest : List Call) : Prop where
  /-- A creation raises when it has no PESEL, or its identity is taken. -/
  raises : ∀ before a after, cs = before ++ .createAccount a :: after →
    ((dispatch (.createAccount a) (dispatch.exec before start)).1.raises = true ↔
      a.pesel = "" ∨ (dispatch.exec before start).adapter.find a.identity ≠ none)
  adapter : (dispatch.exec rest start).adapter = (dispatch.exec cs start).adapter
  createdAccounts :
    (dispatch.exec rest start).createdAccounts = (dispatch.exec cs start).createdAccounts
  /-- The calls that did not raise are the calls left, each with the reply it had. -/
  served : dispatch.served rest start =
    (dispatch.served cs start).filter fun p ↦ !p.2.raises

/-- **A failed registration never happened.**  A creation raises exactly when it has no
PESEL or its identity is taken, and the calls that raise can be deleted from any run. -/
theorem failures_never_happened (cs : List Call) :
    FailuresNeverHappened cs (dispatch.remaining Reply.raises cs start) where
  raises before a _ _ := raises_iff a (dispatch.exec before start)
  adapter := congrArg Bank.adapter (Object.exec_remaining dispatch_of_raises cs start)
  createdAccounts :=
    congrArg Bank.createdAccounts (Object.exec_remaining dispatch_of_raises cs start)
  served := Object.served_remaining dispatch_of_raises cs start

/-! ## One account per PESEL -/

/-- The adapter holds at most one account of `p`. -/
def AtMostOneAccount (s : Bank) (p : String) : Prop :=
  ∀ i i' b b', s.adapter.find i = some (.account b) → s.adapter.find i' = some (.account b') →
    b.toAccount.pesel = p → b'.toAccount.pesel = p → i = i'

/-- Along the run `cs` a PESEL has at most one account, and once a creation has
returned it, every later lookup returns the same. -/
structure OneAccountPerPesel (cs : List Call) : Prop where
  /-- In every state reached there is at most one account of each PESEL. -/
  atMostOne : ∀ reached rest, cs = reached ++ rest →
    ∀ p, AtMostOneAccount (dispatch.exec reached start) p
  /-- What a creation returned is what later lookups return. -/
  neverReplaced : ∀ before a mid after r,
    cs = before ++ .createAccount a :: mid ++ .getAccount a.pesel :: after →
    (dispatch (.createAccount a) (dispatch.exec before start)).1 = .createAccount (.ok r) →
    (dispatch (.getAccount a.pesel)
      (dispatch.exec (before ++ .createAccount a :: mid) start)).1 = .getAccount (some r)

/-- No PESEL is used with incomes on both sides of `PREMIUM_MIN_LIMIT`. -/
def OneTierPerPesel (cs : List Call) : Prop :=
  ∀ a a', .createAccount a ∈ cs → .createAccount a' ∈ cs → a.pesel = a'.pesel →
    a.pesel ≠ "" → a.premium = a'.premium

/-- Every account in the adapter was asked for by a creation of the run. -/
theorem exists_creation {cs : List Call} {i : Identity} {b : AccountServant}
    (h : (dispatch.exec cs start).adapter.find i = some (.account b)) :
    ∃ a, .createAccount a ∈ cs ∧ a.identity = i := by
  revert i b
  refine exec_invariant (I := fun s ↦ ∀ {i b}, s.adapter.find i = some (.account b) →
    ∃ a, .createAccount a ∈ cs ∧ a.identity = i) (fun h ↦ nomatch (find_start h).1) ?_
  intro a s ha hs _ i b h
  rcases find_register h with ⟨rfl, -⟩ | h
  · exact ⟨a, ha, rfl⟩
  · exact hs h

/-- Creations for one PESEL that agree in the tier ask for one identity. -/
theorem Creation.identity_eq {a a' : Creation} (hp : a.pesel = a'.pesel)
    (ht : a.premium = a'.premium) : a.identity = a'.identity := by
  rw [identity, identity, hp, ht]

/-- An entry whose identity is taken survives every list of calls that keeps to
one tier per PESEL. -/
theorem entry_exec {cs mid : List Call} (hcs : OneTierPerPesel cs) {a : Creation}
    (ha : .createAccount a ∈ cs) (hp : a.pesel ≠ "") (hmid : ∀ c ∈ mid, c ∈ cs) {s : Bank}
    {e : CreatedAccount} (hheld : s.adapter.find a.identity ≠ none)
    (he : s.createdAccounts.get a.pesel = some e) :
    (dispatch.exec mid s).createdAccounts.get a.pesel = some e := by
  refine (exec_invariant (I := fun s ↦ s.adapter.find a.identity ≠ none ∧
    s.createdAccounts.get a.pesel = some e) ⟨hheld, he⟩ ?_).2
  rintro a' s ha' ⟨hheld, he⟩ hok
  have hne : a.identity ≠ a'.identity := fun hi ↦ hok (.inr (hi ▸ hheld))
  have hpne : a.pesel ≠ a'.pesel := fun hpp ↦
    hne (Creation.identity_eq hpp (hcs a a' ha (hmid _ ha') hpp hp))
  constructor
  · rwa [Bank.register_adapter, ObjectAdapter.find_insert_of_ne _ _ hne]
  · rwa [Bank.register_createdAccounts, PMap.get_put_of_ne _ hpne]

/-- **One account per PESEL, never replaced**, holds of a run exactly when the run
uses each PESEL in one tier only. -/
theorem oneAccountPerPesel_iff (cs : List Call) : OneAccountPerPesel cs ↔ OneTierPerPesel cs := by
  constructor
  · intro h a a' ha ha' hpp hp
    -- both creations leave their identity taken, so the two identities are one
    obtain ⟨b, hb, hbp⟩ := (servantsKept cs).account_of_held (held_of_mem ha hp start)
    obtain ⟨b', hb', hbp'⟩ := (servantsKept cs).account_of_held
      (held_of_mem ha' (hpp ▸ hp) start)
    have hi : a.identity = a'.identity :=
      h.atMostOne cs [] (by simp) a.pesel _ _ _ _ hb hb' hbp (hbp'.trans hpp.symm)
    exact category_injective (congrArg Identity.category hi)
  · intro h
    constructor
    · rintro reached rest rfl p i i' b b' hb hb' hbp hbp'
      obtain ⟨a, ha, rfl⟩ := exists_creation hb
      obtain ⟨a', ha', rfl⟩ := exists_creation hb'
      have hkept := servantsKept reached
      have hp : a.pesel = p := (hkept.pesel hb).symm.trans hbp
      have hp' : a'.pesel = p := (hkept.pesel hb').symm.trans hbp'
      exact Creation.identity_eq (hp.trans hp'.symm)
        (h a a' (List.mem_append_left _ ha) (List.mem_append_left _ ha') (hp.trans hp'.symm)
          (hkept.name_ne hb))
    · rintro before a mid after r rfl hr
      obtain ⟨hok, rfl⟩ := entry_of_reply_ok hr
      have hkept : (dispatch.exec mid ((dispatch.exec before start).register a)).createdAccounts.get
          a.pesel = some a.entry :=
        entry_exec h (by simp) (fun hp ↦ hok (.inl hp)) (fun c hc ↦ by simp [hc])
          (by simp) (by simp)
      rw [Object.exec_append, Object.exec_cons, dispatch_of_not_refused hok, dispatch_getAccount,
        hkept]

/-- The same PESEL, first with an income under the limit and then over it. -/
theorem not_oneAccountPerPesel : ¬ OneAccountPerPesel
    [.createAccount (sampleCreation "44051401458" 500),
      .createAccount (sampleCreation "44051401458" 1500)] := by
  intro h
  have hi := h.atMostOne _ [] (List.append_nil _).symm "44051401458" ⟨"44051401458", "standard"⟩
    ⟨"44051401458", "premium"⟩ (sampleCreation "44051401458" 500).servant
    (sampleCreation "44051401458" 1500).servant rfl rfl rfl rfl
  exact absurd hi (by decide)

end StockBank.Server
