/-!
# Powers

The powers of whole numbers are those of the core library in every module, also where a library is
imported that has powers in any monoid.
-/

namespace EventOrder

/-- The powers of natural numbers. -/
@[default_instance 20000]
instance (priority := 2000) natPow : Pow Nat Nat := instPowNat

/-- The powers of integers. -/
@[default_instance 20000]
instance (priority := 2000) intPow : Pow Int Nat := instPowNat

end EventOrder
