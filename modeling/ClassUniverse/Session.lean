import ClassUniverse.Declaration
import ClassUniverse.Encoding

/-! Sessions: questions about a universe of sources and class files. -/
namespace ClassUniverse.Engine

def ofDepth (depth : Nat) : Engine :=
  let l := Loader.ofDepth depth
  ⟨l, Run.attemptWithin l.declarationPass depth⟩

def classNamed (engine : Engine) (name : String) : Run ClassId := engine.require (engine.loader.classForName name)

/-- Reads a written type such as `int[]` or `java.lang.String`. -/
def typeNamed (engine : Engine) (written : String) : Run Ty := engine.require (engine.loader.typeForName written)

end ClassUniverse.Engine
