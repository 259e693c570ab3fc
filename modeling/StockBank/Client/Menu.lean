import StockBank.Lib.Triple
import StockBank.Client
import StockBank.Server.Remote
import Mathlib.Data.List.DropRight

/-!
# The menu of the client

The whole of `bankclient.py`: the menu, and the three dialogues behind it.  The client reads
lines, prints lines, and makes remote calls; before each of its calls other clients can have
had any messages delivered to the bank, and at any call the connection can be lost, before the
operation is dispatched or after it.

A call is the operation on the servant, and its outcome is the one that the stub reads, as
`exec_remote_of_wire` has it on the wire.
-/

namespace StockBank.Client.Menu

open Lib Code Demo Ice Server

/-! ## What the dialogues are made of -/

/-- The exceptions that end the program. -/
inductive PyException
  | eofError
  | indexError
  | valueError
  | attributeError
  | /-- An exception that a call has raised. -/
    ice (e : ClientException)
  | /-- No reply has come. -/
    connectionLost
  | /-- The loop is cut off.  It never is, when it may make more turns than there are lines. -/
    unfinished
  deriving DecidableEq

/-- A line that the client prints. -/
inductive Line
  | text (line : String)
  | key (key : String)
  | balance (account_balance : Money)
  | premium (isPremium : Bool)
  | cost (cost : Java.Double)
  deriving DecidableEq

/-- What happens at the bank before one of the calls of this client is dispatched, and the
moment at which it is. -/
structure Turn where
  others : List Delivery
  moment : Moment

/-- The bank, the turns of the calls to come, the lines still to be read, and those printed. -/
structure World where
  bank : Bank
  turns : List Turn
  /-- The turn of one more call, whose reply is lost. -/
  lost : Option Turn
  lines : List String
  printed : List Line

abbrev ClientM := Code PyException World

/-- The tables of Python for characters that are not ASCII. -/
class Unicode where
  decimal : Char → Option (Fin 10)
  isSpace : Char → Bool
  upper : Char → List Char

/-- `input()`. -/
def input : ClientM String := do
  match (← get).lines with
  | [] => throw .eofError
  | line :: lines =>
    modify fun w ↦ { w with lines := lines }
    return line

/-- `print`. -/
def print (line : Line) : ClientM Unit :=
  modify fun w ↦ { w with printed := w.printed ++ [line] }

/-- An element of a list. -/
def index (l : List String) (i : ℕ) : ClientM String :=
  match l[i]? with
  | some x => return x
  | none => throw .indexError

section

variable [Unicode]

/-- `str.upper`. -/
def upper (s : String) : String :=
  String.ofList (s.toList.flatMap fun c ↦ if c.toNat < 128 then [c.toUpper] else Unicode.upper c)

def isSpace (c : Char) : Bool :=
  if c.toNat < 128 then c = ' ' ∨ 9 ≤ c.toNat ∧ c.toNat ≤ 13 else Unicode.isSpace c

def decimal (c : Char) : Option ℕ :=
  if c.toNat < 128 then
    if '0' ≤ c ∧ c ≤ '9' then some (c.toNat - '0'.toNat) else none
  else
    (Unicode.decimal c).map Fin.val

/-- Digits with single underscores between them, after the digits of `n`. -/
def digits (n : ℕ) (afterDigit : Bool) : List Char → Option ℕ
  | [] => if afterDigit then some n else none
  | c :: cs =>
    if c = '_' then
      if afterDigit then digits n false cs else none
    else
      match decimal c with
      | some d => digits (10 * n + d) true cs
      | none => none

/-- `int`, of a string: spaces around it, and a sign before its digits. -/
def int? (s : String) : Option ℤ :=
  match (s.toList.dropWhile isSpace).rdropWhile isSpace with
  | '+' :: cs => (digits 0 false cs).map fun n ↦ (n : ℤ)
  | '-' :: cs => (digits 0 false cs).map fun n ↦ -(n : ℤ)
  | cs => (digits 0 false cs).map fun n ↦ (n : ℤ)

def int (s : String) : ClientM ℤ :=
  match int? s with
  | some n => return n
  | none => throw .valueError

/-- `getCurrency`: `None` for any other text. -/
def getCurrency (currency : String) : Option Currency :=
  if upper currency = "PLN" then some .PLN
  else if upper currency = "EUR" then some .EUR
  else if upper currency = "USD" then some .USD
  else none

end

/-- The check of a value of an enumeration, which `None` does not pass. -/
def enumerator (currency : Option Currency) : ClientM Currency :=
  match currency with
  | some currency => return currency
  | none => throw .valueError

/-- The check of an `int` of the interface. -/
def int32 (n : ℤ) : ClientM ℤ :=
  if -2 ^ 31 ≤ n ∧ n < 2 ^ 31 then return n else throw .valueError

/-- A proxy, unless it is `None`, which has no operations. -/
def getattr (proxy : Option Identity) : ClientM Identity :=
  match proxy with
  | some id => return id
  | none => throw .attributeError

variable [Runtime] [StackTraces] (reference : Reference)

/-- A request of this client. -/
abbrev request (id : Identity) (inv : Invocation) : Request := ⟨id, "", 1, [], currentEncoding, inv⟩

/-- What the bank does in a turn: the messages of others, and then the operation. -/
def Turn.perform (turn : Turn) (r : Request) (s : Bank) :
    Except DispatchException r.inv.Returned × Bank :=
  (r.perform turn.moment).exec ((serve reference).exec turn.others s)

/-- A remote call: it takes its turn, or there is no reply. -/
def remote (id : Identity) (inv : Invocation) : ClientM inv.Received := do
  let w ← get
  match w.turns with
  | [] =>
    match w.lost with
    | none => throw .connectionLost
    | some turn =>
      let (_, bank) := turn.perform reference (request id inv) w.bank
      set { w with bank, lost := none }
      throw .connectionLost
  | turn :: turns =>
    let (result, bank) := turn.perform reference (request id inv) w.bank
    set { w with bank, turns }
    match (request id inv).outcome result with
    | .ok x => return x
    | .error e => throw (.ice e)

/-- `checkedCast`.  An object without the facet is one that is not of the type. -/
def checkedCast (id : Identity) (type : String) : ClientM (Option Identity) := do
  let isA : Bool ← tryCatch (remote reference id (.ice_isA type)) fun e ↦
    match e with
    | .ice (.facetNotExist ..) => (return false : ClientM Bool)
    | e => throw e
  return if isA then some id else none

/-! ## The dialogues -/

variable [Unicode]

def registerToBank (accountsCreator : Option Identity) : ClientM Unit := do
  print (.text "-----------------------------------------------")
  print (.text "---- Register to bank ----")
  print (.text
    "---- Put your firstname,lastname,PESEL and monthly income (currency, value): ----")
  let userData ← input
  let userDataSplitted := split userData
  let currency := getCurrency (← index userDataSplitted 3)
  let value ← int (← index userDataSplitted 4)
  let accountsCreator ← getattr accountsCreator
  let firstName ← index userDataSplitted 0
  let lastName ← index userDataSplitted 1
  let pesel ← index userDataSplitted 2
  let currency ← enumerator currency
  let value ← int32 value
  let createdAccount : CreatedAccount ← remote reference accountsCreator
    (.createAccount firstName lastName pesel ⟨currency, value⟩)
  print (.text "---------------------------------------------------------")
  print (.text "---- Your account is created. Client key number is:  ----")
  print (.key createdAccount.key)
  print (.text "---------------------------------------------------------")

/-- `accountsCreator.getAccount(userDataSplitted[0]).account`. -/
def getAccount (accountsCreator : Option Identity) (userDataSplitted : List String) :
    ClientM (Option Identity) := do
  let accountsCreator ← getattr accountsCreator
  let pesel ← index userDataSplitted 0
  let result : CreatedAccount ← remote reference accountsCreator (.getAccount pesel)
  return result.account.map AccountPrx.ident

def accountStatus (accountsCreator : Option Identity) : ClientM Unit := do
  print (.text "-----------------------------------------------")
  print (.text "---- Check account status: ----")
  print (.text "---- PESEL and user key:   ----")
  let userData ← input
  let userDataSplitted := split userData
  let accountProxy ← getAccount reference accountsCreator userDataSplitted
  print (.text "-----------------------------------------------")
  print (.text "---- Your account status: ----")
  let account_balance : Money ← remote reference (← getattr accountProxy) .getAccountStatus
  print (.balance account_balance)
  print (.text "-----------------------------------------------")

def getLoan (accountsCreator : Option Identity) : ClientM Unit := do
  print (.text "-----------------------------------------------")
  print (.text
    "---- To get loan enter PESEL, currency, value and length of loan period: ----")
  let userData ← input
  let userDataSplitted := split userData
  let accountProxy ← getAccount reference accountsCreator userDataSplitted
  let accountProxy ← getattr accountProxy
  let isPremium : Bool ← remote reference accountProxy .isPremium
  print (.premium isPremium)
  let isPremium : Bool ← remote reference accountProxy .isPremium
  if isPremium then
    let premiumAccountProxy ← checkedCast reference accountProxy "::Demo::PremiumAccount"
    let premiumAccountProxy ← getattr premiumAccountProxy
    let currency := getCurrency (← index userDataSplitted 1)
    let value ← int (← index userDataSplitted 2)
    let periodLength ← int (← index userDataSplitted 3)
    let currency ← enumerator currency
    let value ← int32 value
    let periodLength ← int32 periodLength
    let cost : Java.Double ← remote reference premiumAccountProxy
      (.getLoan currency (Int32.ofInt value) (Int32.ofInt periodLength))
    print (.cost cost)
  else
    print (.text "You are not allowed o get loan, your account is not premium")
  print (.text "-----------------------------------------------")

/-- The loop of the menu, which makes at most so many turns. -/
def loop (accountsCreator : Option Identity) : ℕ → ClientM Unit
  | 0 => throw .unfinished
  | turns + 1 => do
    print (.text "-----------------------------------------------")
    print (.text "---- Avaliable operations:        ----")
    print (.text "---- * 1 * create account         ----")
    print (.text "---- * 2 * log in to an account   ----")
    print (.text "---- * 3 * get loan               ----")
    print (.text "---- * 0 * exit                   ----")
    print (.text "-----------------------------------------------")
    let choice ← int (← input)
    if choice = 1 then
      registerToBank reference accountsCreator
    if choice = 2 then
      accountStatus reference accountsCreator
    if choice = 3 then
      getLoan reference accountsCreator
    if choice ≠ 0 then
      loop accountsCreator turns

/-- The program.  Every turn of its loop reads a line. -/
def main : ClientM Unit := do
  let accountsCreator ← checkedCast reference factoryIdentity "::Demo::AccountsCreator"
  loop reference accountsCreator ((← get).lines.length + 1)

end StockBank.Client.Menu
