import StockBank.Client.Session

/-!
# The status dialogue is atomic

`Client.accountStatus` is the dialogue on a bank that nobody else uses.  In the menu the
dialogue makes two calls, and anything can be delivered to the bank before the first of them and
between the two.  It shows what the dialogue shows on the bank that the first call finds, and
ends as that does: what the first call returns stays true.
-/

namespace StockBank.Client.Menu

open Lib Code Demo Ice Server

/-- An exception of the dialogue, as the menu raises it. -/
def raised : Client.PyException → PyException
  | .indexError => .indexError
  | .attributeError => .attributeError
  | .objectNotExist id => .ice (.objectNotExist id "" "getAccountStatus")
  | .operationNotExist id => .ice (.operationNotExist id "" "getAccountStatus")

/-- A line of the dialogue, as the menu prints it. -/
def shown : Client.Output → Line
  | .text line => .text line
  | .balance account_balance => .balance account_balance

/-! ## The dialogue on a quiet bank -/

theorem exec_accountStatus_of_none {userData : String} {s : Bank}
    (h : s.createdAccounts.get (typedPesel userData) = none) :
    (Client.accountStatus userData).exec ⟨s, []⟩ = (.error .attributeError, ⟨s, texts⟩) := by
  simp only [Client.accountStatus, exec_bind, Client.exec_print,
    Client.exec_index _ (getElem_zero_split _), Client.exec_getAccount, h, Option.getD_none,
    CreatedAccount.nullMarshalValue, exec_invoke_none]
  rfl

theorem exec_accountStatus_of_some {userData : String} {s : Bank} {e : CreatedAccount}
    {proxy : AccountPrx} {self : AccountServant}
    (h : s.createdAccounts.get (typedPesel userData) = some e) (hproxy : e.account = some proxy)
    (hself : s.adapter.find proxy.ident = some (.account self)) :
    (Client.accountStatus userData).exec ⟨s, []⟩ =
      (.ok (), ⟨s, texts ++ [.balance self.getAccountStatus,
        .text "-----------------------------------------------"]⟩) := by
  simp only [Client.accountStatus, exec_bind, Client.exec_print,
    Client.exec_index _ (getElem_zero_split _), Client.exec_getAccount, h, Option.getD_some, hproxy]
  rw [exec_invoke_some _ hself]
  rfl

/-! ## The dialogue of the menu -/

theorem exec_print (line : Line) (w : World) :
    (print line).exec w = (.ok (), { w with printed := w.printed ++ [line] }) := rfl

theorem exec_input (bank : Bank) (turns : List Turn) (lost : Option Turn) (line : String)
    (lines : List String) (printed : List Line) :
    input.exec ⟨bank, turns, lost, line :: lines, printed⟩ =
      (.ok line, ⟨bank, turns, lost, lines, printed⟩) := rfl

theorem exec_index {l : List String} {i : ℕ} {x : String} (h : l[i]? = some x) (w : World) :
    (index l i).exec w = (.ok x, w) := by
  rw [index, h]
  rfl

section

variable [Runtime] [StackTraces] (reference : Reference)

/-- `getAccount`, whatever the others have done before it. -/
theorem exec_getAccount {w : World} {turn : Turn} {later : List Turn} (h : w.turns = turn :: later)
    {userDataSplitted : List String} {pesel : String} (hpesel : userDataSplitted[0]? = some pesel)
    {s : Bank} (hs : (serve reference).exec turn.others w.bank = s)
    (hfactory : s.adapter.find factoryIdentity = some .accountsCreator) :
    (getAccount reference (some factoryIdentity) userDataSplitted).exec w =
      (.ok ((CreatedAccount.received (s.createdAccounts.get pesel)).account.map AccountPrx.ident),
        { w with bank := s, turns := later }) := by
  have hperform : ((request factoryIdentity (.getAccount pesel)).perform turn.moment).exec
      ((serve reference).exec turn.others w.bank) = (.ok (s.createdAccounts.get pesel), s) := by
    rw [hs, exec_perform_request hfactory]
    rfl
  have hremote := exec_remote_of_ok reference h hperform
  rw [getAccount, exec_bind_of_ok (show (getattr (some factoryIdentity)).exec w = _ from rfl),
    exec_bind_of_ok (exec_index hpesel w)]
  exact exec_bind_of_ok hremote _

/-- `getAccountStatus` of an account, whatever the others have done before it. -/
theorem exec_getAccountStatus {w : World} {turn : Turn} {later : List Turn}
    (h : w.turns = turn :: later) {i : Identity} {b : AccountServant} (hheld : Held i b w.bank) :
    (remote reference i .getAccountStatus).exec w =
      (.ok b.getAccountStatus,
        { w with bank := (serve reference).exec turn.others w.bank, turns := later }) := by
  apply exec_remote_of_ok reference h
  rw [exec_perform_request (find_serve_exec reference hheld turn.others)]
  cases b <;> rfl

/-- **The status dialogue is atomic.**  Whatever is delivered to the bank before its first call and
between its two calls, it shows and raises what the dialogue on a quiet bank does, on the bank that
its first call finds. -/
theorem accountStatus_atomic (cs : List Call) (turn turn' : Turn) (later : List Turn)
    (lost : Option Turn) (userData : String) (lines : List String) (printed : List Line) :
    ∃ w, (accountStatus reference (some factoryIdentity)).exec
        ⟨dispatch.exec cs start, turn :: turn' :: later, lost, userData :: lines, printed⟩ =
          (((Client.accountStatus userData).exec
            ⟨(serve reference).exec turn.others (dispatch.exec cs start), []⟩).1.mapError raised, w) ∧
      w.printed = printed ++ (Client.printed userData
        ((serve reference).exec turn.others (dispatch.exec cs start))).map shown := by
  obtain ⟨cs', -, -, hexec⟩ := serve_exec_from reference cs turn.others
  rw [← Object.exec_append] at hexec
  generalize hs : (serve reference).exec turn.others (dispatch.exec cs start) = s at hexec
  have hfactory : s.adapter.find factoryIdentity = some .accountsCreator := by
    rw [hexec]
    exact find_exec (ObjectAdapter.find_insert_self _ _ _) _
  have hget : ∀ lines printed, (getAccount reference (some factoryIdentity) (split userData)).exec
      ⟨dispatch.exec cs start, turn :: turn' :: later, lost, lines, printed⟩ =
        (.ok ((CreatedAccount.received
            (s.createdAccounts.get (typedPesel userData))).account.map AccountPrx.ident),
          ⟨s, turn' :: later, lost, lines, printed⟩) :=
    fun _ _ ↦ exec_getAccount reference rfl (getElem_zero_split userData) hs hfactory
  rw [Client.printed, accountStatus]
  simp only [exec_bind, exec_print, exec_input, hget]
  cases he : s.createdAccounts.get (typedPesel userData) with
  | none =>
      rw [exec_accountStatus_of_none he]
      exact ⟨_, rfl, by simp [texts, shown]⟩
  | some e =>
      obtain ⟨_, a, _, -, -, -, -, hagrees⟩ := agrees_of_entry (hexec ▸ he)
      obtain ⟨proxy, hproxy, hident⟩ := Option.map_eq_some_iff.mp hagrees.proxy
      have hheld : Held proxy.ident a.servant s := by
        rw [Held, hident, hexec]
        exact hagrees.registered
      rw [exec_accountStatus_of_some he hproxy hheld, ident_received, hproxy]
      refine ⟨_, (exec_bind_of_ok (exec_getAccountStatus reference rfl hheld) _).trans rfl, ?_⟩
      simp [texts, shown]

end

end StockBank.Client.Menu
