import StockBank.Lib.Dict
import StockBank.Demo

/-!
# The object adapter

The active servant map of an Ice object adapter, as `ObjectAdapterI.addFacet` and
`ServantManager.addServant` of the vendored Ice keep it, for the empty facet the
bank uses and before the adapter is deactivated: `add` refuses an identity
without a name and an identity that is taken, and otherwise registers the servant
and returns a proxy for the identity.  A refused `add` leaves the map alone.
-/

namespace StockBank.Ice

open Lib

/-- The exceptions of `ObjectAdapter.add`. -/
inductive LocalException
  | illegalIdentity (id : Identity)
  | alreadyRegistered (kindOfObject : String) (id : Identity)
  deriving DecidableEq, Repr

/-- An object adapter: the servant registered under each identity. -/
structure ObjectAdapter (Servant : Type) where
  servants : PMap Identity Servant

variable {Servant : Type}

namespace ObjectAdapter

def empty : ObjectAdapter Servant := ⟨PMap.empty⟩

/-- `ObjectAdapterI.checkIdentity`. -/
def checkIdentity (ident : Identity) : Except LocalException Unit :=
  if ident.name.length = 0 then throw (.illegalIdentity ident) else pure ()

/-- `ServantManager.addServant`. -/
def addServant (servants : PMap Identity Servant) (servant : Servant) (ident : Identity) :
    Except LocalException (PMap Identity Servant) :=
  match servants.get ident with
  | some _ => throw (.alreadyRegistered "servant" ident)
  | none => pure (servants.put ident servant)

/-- `ObjectAdapterI.add`. -/
def add (adapter : ObjectAdapter Servant) (servant : Servant) (ident : Identity) :
    Except LocalException (ObjectPrx × ObjectAdapter Servant) := do
  checkIdentity ident
  let servants ← addServant adapter.servants servant ident
  return (⟨ident⟩, ⟨servants⟩)

/-- `ServantManager.findServant`: the servant an invocation on the identity reaches. -/
def find (adapter : ObjectAdapter Servant) (ident : Identity) : Option Servant :=
  adapter.servants.get ident

/-- The adapter after a successful `add`. -/
def insert (adapter : ObjectAdapter Servant) (servant : Servant) (ident : Identity) :
    ObjectAdapter Servant := ⟨adapter.servants.put ident servant⟩

@[ext] theorem ext {adapter adapter' : ObjectAdapter Servant}
    (h : ∀ ident, adapter.find ident = adapter'.find ident) : adapter = adapter' :=
  congrArg mk (PMap.ext h)

@[simp] theorem find_insert_self (adapter : ObjectAdapter Servant) (servant : Servant)
    (ident : Identity) : (adapter.insert servant ident).find ident = some servant :=
  PMap.get_put_self _ _ _

@[simp] theorem find_insert_of_ne (adapter : ObjectAdapter Servant) (servant : Servant)
    {ident ident' : Identity} (h : ident' ≠ ident) :
    (adapter.insert servant ident).find ident' = adapter.find ident' :=
  PMap.get_put_of_ne _ h _

theorem add_illegal (adapter : ObjectAdapter Servant) (servant : Servant) {ident : Identity}
    (h : ident.name = "") : adapter.add servant ident = .error (.illegalIdentity ident) := by
  simp only [add, checkIdentity, h, String.length_empty, ↓reduceIte]
  rfl

theorem add_taken (adapter : ObjectAdapter Servant) (servant : Servant) {ident : Identity}
    (h : ident.name ≠ "") {held : Servant} (hheld : adapter.find ident = some held) :
    adapter.add servant ident = .error (.alreadyRegistered "servant" ident) := by
  have hget : adapter.servants.get ident = some held := hheld
  simp only [add, checkIdentity, addServant, String.length_eq_zero_iff, h, hget, ↓reduceIte]
  rfl

theorem add_free (adapter : ObjectAdapter Servant) (servant : Servant) {ident : Identity}
    (h : ident.name ≠ "") (hfree : adapter.find ident = none) :
    adapter.add servant ident = .ok (⟨ident⟩, adapter.insert servant ident) := by
  have hget : adapter.servants.get ident = none := hfree
  simp only [add, checkIdentity, addServant, String.length_eq_zero_iff, h, hget, ↓reduceIte]
  rfl

/-- Whether `add` is refused depends on what is under the identity alone. -/
theorem add_error_congr {adapter adapter' : ObjectAdapter Servant} {servant : Servant}
    {ident : Identity} {e : LocalException} (h : adapter.add servant ident = .error e)
    (hfind : adapter'.find ident = adapter.find ident) :
    adapter'.add servant ident = adapter.add servant ident := by
  by_cases hn : ident.name = ""
  · rw [add_illegal _ _ hn, add_illegal _ _ hn]
  · cases hf : adapter.find ident with
    | none => rw [add_free _ _ hn hf] at h; cases h
    | some held => rw [add_taken _ _ hn hf, add_taken _ _ hn (hfind.trans hf)]

/-- A successful `add` found the identity free, and registered it. -/
theorem add_ok_inv {adapter adapter' : ObjectAdapter Servant} {servant : Servant}
    {ident : Identity} {proxy : ObjectPrx} (h : adapter.add servant ident = .ok (proxy, adapter')) :
    ident.name ≠ "" ∧ adapter.find ident = none ∧ proxy = ⟨ident⟩ ∧
      adapter' = adapter.insert servant ident := by
  by_cases hn : ident.name = ""
  · rw [add_illegal _ _ hn] at h
    cases h
  · cases hf : adapter.find ident with
    | some x => rw [add_taken _ _ hn hf] at h; cases h
    | none =>
        rw [add_free _ _ hn hf] at h
        cases h
        exact ⟨hn, rfl, rfl, rfl⟩

end ObjectAdapter

end StockBank.Ice
