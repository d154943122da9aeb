import ClassUniverse.Derivation

/-! Classes from the class path and from sources. Metadata of a compatible compiler is preferred to the raw
structure of a class file, and a source to a class file that is older or of another version. -/
namespace ClassUniverse.Loader

/-- The class in the metadata of a file. It is loaded into a fork of the session's cache, so that a failure
leaves no entries behind. -/
def encodedClass (l : Loader) (file : ClassFile) (name : String) : Run ClassId := do
  let version := (← get).config.version
  if file.compatibility version = .incompatible then
    throw (.incompatibleVersion name version.name (file.compilerVersion.getD "unknown") version.text)
  match file.metadata? version with
  | none => throw (.badEncoding name (.noMetadata version.name))
  | some text =>
    Cache.fork .session
    match ← (l.decode text file.name).outcome with
    | .ok id =>
      Cache.commit .session
      return id
    | .error e =>
      Cache.discard .session
      throw e

def rawClass (l : Loader) (file : ClassFile) : Run ClassId := do
  match ← Run.check file.name with
  | some (.cls id) => return id
  | _ => file.declare l

/-- Unusable metadata leaves the raw structure, if that may be used. -/
def classInFile (l : Loader) (name : String) (file : ClassFile) : Run ClassId := do
  let config := (← get).config
  let allowRaw := config.allowRawClasses && file.raw.isSome
  let raw := if allowRaw then l.rawClass file else Run.fault (.noSuitableDefinition name config.version.name)
  if (file.metadata? config.version).isNone then raw
  else
    match ← (l.encodedClass file name).outcome with
    | .ok id => return id
    | .error e =>
      match e, allowRaw with
      | .badEncoding .., true | .incompatibleVersion .., true => raw
      | _, _ => throw e

def findLoaded (l : Loader) (name : String) : Run Named := do
  match (← get).classPath.find? name with
  | some file => return .cls (← l.classInFile name file)
  | none => throw (.notFound name)

end ClassUniverse.Loader

namespace ClassUniverse

namespace Run

def loadSource (source : SourceFile) : Run JobId :=
  modifyGet fun w =>
    let (job, schedule) := w.schedule.load source
    (job, { w with schedule })

/-- Classes of a source exist once the types of its job are initialized. -/
def fromSource (source : SourceFile) (name : String) : Run Named := do
  let job ← loadSource source
  match ← check name with
  | some named => return named
  | none =>
    if (← get).reached (.typesInitialized job) then throw (.notFound name)
    else throw (.missingDependency (.typesInitialized job))

end Run

namespace Loader

/-- Metadata that is no older than the source and of exactly this version. -/
def metadataServes (config : Config) (file : ClassFile) (source : SourceFile) : Bool :=
  (file.metadata? config.version).isSome &&
    (config.ignoreModTimes || !(file.sourceLastModified < source.lastModified)) &&
    file.compatibility config.version == .compatible

def findSourced (l : Loader) (name : String) : Run Named := do
  let w ← get
  match w.sources.find? name with
  | none => l.findLoaded name
  | some source =>
    let file := (w.classPath.find? name).filter fun file => metadataServes w.config file source
    match w.schedule.jobOf? source.path, file with
    | none, some file =>
      match ← (l.encodedClass file name).outcome with
      | .ok id => return .cls id
      | .error (.incompatibleVersion ..) => Run.fromSource source name
      | .error e => throw e
    | _, _ => Run.fromSource source name

end Loader

end ClassUniverse
