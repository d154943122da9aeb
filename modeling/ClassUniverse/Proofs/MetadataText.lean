import ClassUniverse.Metadata
import ClassUniverse.Proofs.JsonText

/-! A class document is read back as it was written: every field of it survives its printed text. -/
namespace ClassUniverse

namespace Json

theorem plain_strings (texts : List String) : (strings texts).Plain := by
  refine .array _ fun item listed => ?_
  obtain ⟨text, -, rfl⟩ := List.mem_map.mp listed
  exact .string text

theorem plain_optional (text : Option String) : (optional string text).Plain := by
  cases text with
  | none => exact .null
  | some text => exact .string text

theorem plain_list {write : α → Json} (plain : ∀ value, (write value).Plain) (values : List α) :
    (list write values).Plain := by
  refine .array _ fun item listed => ?_
  obtain ⟨value, -, rfl⟩ := List.mem_map.mp listed
  exact plain value

@[simp] theorem optional?_string (text : Option String) : optional? string? (optional string text) = some text := by
  cases text <;> rfl

theorem list?_list {read : Json → Option α} (back : ∀ value, read (write value) = some value)
    (values : List α) : list? read (list write values) = some values := by
  have all : (values.map write).mapM read = some values := by
    induction values with
    | nil => rfl
    | cons value values ih => simp [List.mapM_cons, back, ih]
  exact all

@[simp] theorem list?_strings (texts : List String) : list? string? (strings texts) = some texts := by
  have back (text : String) : string? (string text) = some text := rfl
  exact list?_list back texts

end Json

theorem Flag.mapM_ofWord? (flags : List Flag) : (flags.map word).mapM ofWord? = some flags := by
  have back (flag : Flag) : ofWord? flag.word = some flag := by cases flag <;> decide
  induction flags with
  | nil => rfl
  | cons flag flags ih => simp [List.mapM_cons, back, ih]

namespace Flags

theorem ofList_toList (flags : Flags) : ofList flags.toList = flags := by
  ext flag
  have known := Flag.mem_all flag
  cases held : flags.has flag <;> simp [ofList, toList, known, held]

theorem ofWords?_words (flags : Flags) : ofWords? flags.words = some flags := by
  simp only [ofWords?, words, Flag.mapM_ofWord?, Option.map_some, ofList_toList]

@[simp] theorem ofJson?_toJson (flags : Flags) : ofJson? flags.toJson = some flags := by
  simp [ofJson?, toJson, Json.strings?, ofWords?_words]

theorem plain_toJson (flags : Flags) : flags.toJson.Plain := Json.plain_strings flags.words

end Flags

/-! ## Declarations -/

attribute [local simp] Json.fields? Json.occurrences Json.Fields.required Json.Fields.optional Json.Fields.withDefault
  Json.Fields.list List.lookup_cons Json.string?

namespace FieldDecl

theorem ofJson?_toJson (d : FieldDecl) : ofJson? d.toJson = some d := by
  simp [ofJson?, toJson]

theorem plain_toJson (d : FieldDecl) : d.toJson.Plain := by
  refine .object _ fun member listed => ?_
  simp only [List.mem_cons, List.not_mem_nil, or_false] at listed
  rcases listed with rfl | rfl | rfl
  · exact .string _
  · exact d.flags.plain_toJson
  · exact .string _

end FieldDecl

namespace MethodDecl

theorem ofJson?_toJson (d : MethodDecl) : ofJson? d.toJson = some d := by
  simp [ofJson?, toJson]

theorem plain_toJson (d : MethodDecl) : d.toJson.Plain := by
  refine .object _ fun member listed => ?_
  simp only [List.mem_cons, List.not_mem_nil, or_false] at listed
  rcases listed with rfl | rfl | rfl | rfl | rfl
  · exact .string _
  · exact d.flags.plain_toJson
  · exact .string _
  · exact Json.plain_strings _
  · exact Json.plain_strings _

end MethodDecl

namespace ConstructorDecl

theorem ofJson?_toJson (d : ConstructorDecl) : ofJson? d.toJson = some d := by
  simp [ofJson?, toJson]

theorem plain_toJson (d : ConstructorDecl) : d.toJson.Plain := by
  refine .object _ fun member listed => ?_
  simp only [List.mem_cons, List.not_mem_nil, or_false] at listed
  rcases listed with rfl | rfl | rfl
  · exact d.flags.plain_toJson
  · exact Json.plain_strings _
  · exact Json.plain_strings _

end ConstructorDecl

/-! ## Documents -/

namespace Metadata

theorem ofJson?_toJson (m : Metadata) : ofJson? m.toJson = some m := by
  have fields := Json.list?_list FieldDecl.ofJson?_toJson m.fields
  have methods := Json.list?_list MethodDecl.ofJson?_toJson m.methods
  have constructors := Json.list?_list ConstructorDecl.ofJson?_toJson m.constructors
  simp [ofJson?, toJson, fields, methods, constructors]

theorem plain_toJson (m : Metadata) : m.toJson.Plain := by
  refine .object _ fun member listed => ?_
  simp only [List.mem_cons, List.not_mem_nil, or_false] at listed
  rcases listed with rfl | rfl | rfl | rfl | rfl | rfl | rfl | rfl | rfl | rfl
  · exact .string _
  · exact .string _
  · exact Json.plain_optional _
  · exact m.flags.plain_toJson
  · exact Json.plain_optional _
  · exact Json.plain_strings _
  · exact Json.plain_list FieldDecl.plain_toJson _
  · exact Json.plain_list MethodDecl.plain_toJson _
  · exact Json.plain_list ConstructorDecl.plain_toJson _
  · exact Json.plain_strings _

theorem parse?_render (m : Metadata) : parse? m.render = some m := by
  simp [parse?, render, Json.parse?_render m.plain_toJson, ofJson?_toJson]

end Metadata

end ClassUniverse
