import Mathlib.Data.Nat.Cast.Defs

/-!
# EnergyMeter — numerals

A numeral of a field carries the proof that it is at least two. For the numerals
that stand in the definitions of several modules the proof has a name here, so
that each of them is the same term everywhere.
-/

namespace EnergyMeter.Lib

instance atLeastTwo_2 : Nat.AtLeastTwo 2 := inferInstance
instance atLeastTwo_3 : Nat.AtLeastTwo 3 := inferInstance
instance atLeastTwo_4 : Nat.AtLeastTwo 4 := inferInstance
instance atLeastTwo_10 : Nat.AtLeastTwo 10 := inferInstance
instance atLeastTwo_100 : Nat.AtLeastTwo 100 := inferInstance
instance atLeastTwo_100000 : Nat.AtLeastTwo 100000 := inferInstance

end EnergyMeter.Lib
