import StockBank.Lib.Dict
import StockBank.Java.Doubles
import StockBank.Demo

/-!
# Accounts

`Account.java` and `PremiumAccount.java`: the two classes of account servants, the
key an account draws when it is constructed, and the price of a loan.

`Math.random()` is an arbitrary exact value in `[0, 1)`, and a `double` is an exact
rational or one of the values a division by zero gives.
-/

namespace StockBank

namespace Java

/-- A value `Math.random()` can return. -/
structure Random where
  val : ℚ
  nonneg : 0 ≤ val
  lt_one : val < 1

def Random.zero : Random := ⟨0, le_rfl, zero_lt_one⟩

/-- The cast `(int)` of a `double`: rounding toward zero. -/
def toInt (q : ℚ) : ℤ := q.num.tdiv q.den

theorem toInt_of_nonneg {q : ℚ} (h : 0 ≤ q) : toInt q = ⌊q⌋ := by
  rw [toInt, Int.tdiv_eq_ediv_of_nonneg (Rat.num_nonneg.mpr h), Rat.floor_def']

/-- A draw scaled by `n` and cast is one of `0, …, n - 1`. -/
theorem toInt_random_mul (r : Random) {n : ℤ} (hn : 0 < n) :
    0 ≤ toInt (r.val * n) ∧ toInt (r.val * n) < n := by
  have hn' : (0 : ℚ) < n := by exact_mod_cast hn
  have hnonneg : 0 ≤ r.val * n := mul_nonneg r.nonneg hn'.le
  rw [toInt_of_nonneg hnonneg]
  exact ⟨Int.floor_nonneg.mpr hnonneg, Int.floor_lt.mpr (mul_lt_of_lt_one_left hn' r.lt_one)⟩

end Java

namespace Server

open Lib Demo Java

/-- The fields of `Account`. -/
structure Account where
  firstName : String
  lastName : String
  pesel : String
  balance : Money
  key : String
  deriving DecidableEq, Repr

namespace Account

def max : ℤ := 2000

def min : ℤ := 1000

/-- How many keys there are. -/
def range : ℤ := max - min + 1

/-- The constructor: the key is the numeral of a random number between `min` and `max`. -/
def new (firstName lastName pesel : String) (balance : Money) (random : Random) : Account where
  firstName := firstName
  lastName := lastName
  pesel := pesel
  balance := balance
  key := toString (toInt (random.val * range) + min)

/-- `Account.getAccountStatus`. -/
def getAccountStatus (self : Account) : Money := self.balance

/-- `Account.isPremium`. -/
def isPremium (_self : Account) : Bool := false

/-- The key of a new account is the numeral of a number between `min` and `max`. -/
theorem key_new (firstName lastName pesel : String) (balance : Money) (random : Random) :
    ∃ n : ℤ, min ≤ n ∧ n ≤ max ∧ (new firstName lastName pesel balance random).key = toString n := by
  obtain ⟨hlow, hhigh⟩ := toInt_random_mul random (n := range) (by decide)
  refine ⟨toInt (random.val * range) + min, by omega, ?_, rfl⟩
  have : range + min = max + 1 := by decide
  omega

end Account

/-- `PremiumAccount extends Account`. -/
structure PremiumAccount extends Account where
  deriving DecidableEq, Repr

namespace PremiumAccount

/-- The constructor. -/
def new (firstName lastName pesel : String) (balance : Money) (random : Random) :
    PremiumAccount where
  toAccount := Account.new firstName lastName pesel balance random

/-- `PremiumAccount.isPremium`. -/
def isPremium (_self : PremiumAccount) : Bool := true

/-- `PremiumAccount.getLoan`, against the rates it reads: `value * rate / periodLength`,
and an exception when there is no rate to unbox. -/
def getLoan (_self : PremiumAccount) (availableCurrencies : PMap Currency ℚ) (currency : Currency)
    (value periodLength : ℤ) : Except NullPointerException Double :=
  match availableCurrencies.get currency with
  | none => .error .unboxing
  | some cost => .ok (div (value * cost) periodLength)

end PremiumAccount

/-- An account servant, of one of the two classes. -/
inductive AccountServant
  | account (self : Account)
  | premiumAccount (self : PremiumAccount)
  deriving DecidableEq, Repr

namespace AccountServant

def toAccount : AccountServant → Account
  | .account self => self
  | .premiumAccount self => self.toAccount

/-- The servant is an instance of `PremiumAccount`. -/
def IsPremiumAccount : AccountServant → Prop
  | .account _ => False
  | .premiumAccount _ => True

/-- `isPremium`, as the class of the servant implements it. -/
def isPremium : AccountServant → Bool
  | .account self => self.isPremium
  | .premiumAccount self => self.isPremium

/-- `getAccountStatus`, which `PremiumAccount` inherits. -/
def getAccountStatus (self : AccountServant) : Money := self.toAccount.getAccountStatus

/-- The method `isPremium` tells the class of the servant. -/
theorem isPremium_iff (self : AccountServant) : self.isPremium = true ↔ self.IsPremiumAccount := by
  cases self <;> simp [isPremium, IsPremiumAccount, Account.isPremium, PremiumAccount.isPremium]

end AccountServant

end Server

end StockBank
