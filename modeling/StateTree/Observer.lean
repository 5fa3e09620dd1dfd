import StateTree.Log
import StateTree.Reaction

/-!
Observers of machines. They keep what they learn in a world that the host owns and that several of
them may share. An observer is told of resets and of reactions, and may refuse an event before the
machine reacts to it.
-/

namespace StateTree

variable {V W S E : Type}

/-- The reactions of an observer; those not given do nothing. Each gets the name of the machine
first and the world last. -/
structure Observer (W S E : Type) where
  wasReset : String → List S → Option (Failure S) → W → W × List Line :=
    fun _ _ _ world => (world, [])
  beforeFire : String → E → Option (Failure S) → W → W × Option Refusal :=
    fun _ _ _ world => (world, none)
  fired : String → E → Reaction S → W → W × List Line :=
    fun _ _ _ world => (world, [])

namespace Observer

/-- Notices nothing and refuses nothing. -/
def silent : Observer W S E := {}

/-- An observer of a part of a larger world. -/
def zoom (get : W → V) (set : V → W → W) (o : Observer V S E) : Observer W S E where
  wasReset machine active failure world :=
    let told := o.wasReset machine active failure (get world)
    (set told.1 world, told.2)
  beforeFire machine event inconsistency world :=
    let asked := o.beforeFire machine event inconsistency (get world)
    (set asked.1 world, asked.2)
  fired machine event reaction world :=
    let told := o.fired machine event reaction (get world)
    (set told.1 world, told.2)

/-- Asks observers in turn up to the first refusal. -/
def consult (machine : String) (event : E) (inconsistency : Option (Failure S)) :
    List (Observer W S E) → W → W × Option Refusal
  | [], world => (world, none)
  | o :: rest, world =>
    let asked := o.beforeFire machine event inconsistency world
    match asked.2 with
    | some refusal => (asked.1, some refusal)
    | none => consult machine event inconsistency rest asked.1

/-- Tells all observers in turn. -/
def notify (tell : Observer W S E → W → W × List Line) :
    List (Observer W S E) → W → W × List Line
  | [], world => (world, [])
  | o :: rest, world =>
    let told := tell o world
    let others := notify tell rest told.1
    (others.1, told.2 ++ others.2)

end Observer

end StateTree
