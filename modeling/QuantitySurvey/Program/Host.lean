import QuantitySurvey.Calculation.Collaborators
import QuantitySurvey.Disk.Files
import QuantitySurvey.Lock.Holder

/-! # Hosts

What the program runs on: files, clocks, the environment, and two places to print to. -/

set_option autoImplicit false

namespace QuantitySurvey.Program

structure Host (m : Type → Type) (H : Type) where
  files : Files m H
  session : Lock.Session m
  surroundings : Calculation.Surroundings m
  /-- Which of several elements of one name a search comes upon first, in whatever order it goes
  through them. -/
  turn : m Nat
  /-- The value of a variable of the environment. -/
  valueOf : String → m (Option String)
  print : String → m Unit
  printError : String → m Unit

end QuantitySurvey.Program
