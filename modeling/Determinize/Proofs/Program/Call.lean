import Determinize.Program.Basic
import Determinize.Proofs.CommandLine.Parse

/-!
# Calling the conversion

The words `workflow automaton convert` are followed by the name of a file and by options for overrides
and for the form of the output. The words pass through four commands in turn: the program, its
subcommand, the workflow and the method. The first three take what follows their own word as it is,
since no option of theirs begins like one of the method. The last one binds the values, in whichever
order they are given.

The value `--` that is attached to an option does not count; then the option is as good as absent.

## Main definitions

* `IsConvertCall` — the words that can follow.
* `countedText` — the text that counts of a value.

## Main results

* `Program.run_convert` — what the program does then.
-/

namespace Determinize

open CommandLine

/-! ### Calls -/

/-- The words by which an option is given a value or left out. -/
inductive IsOptionally (name : String) : Option String → List String → Prop
  | absent : IsOptionally name none []
  | attached (value : String) : IsOptionally name (some value) [name ++ "=" ++ value]
  | apart {value : String} (h : IsPlain value) : IsOptionally name (some value) [name, value]

/-- The spelling of the option for overrides. -/
def overridesName : String := "--overrides"

/-- The spelling of the option for the form of the output. -/
def formatName : String := "--output-format"

/-- The words that name a file, overrides and the form of the output, in any order. -/
structure IsConvertCall (file : String) (overrides format : Option String) (words : List String) :
    Prop where
  isPlain_file : IsPlain file
  known_format : ∀ f ∈ format, f = "text" ∨ f = "json"
  spelled : ∃ overridesWords formatWords pieces, IsOptionally overridesName overrides overridesWords ∧
    IsOptionally formatName format formatWords ∧
    List.Perm pieces [[file], overridesWords, formatWords] ∧ words = pieces.flatten

/-- The text that counts of the value of an option: the empty one if the option is absent, or if its
value is a separator. -/
def countedText : Option String → String
  | some value => if value = separatorText then "" else value
  | none => ""

variable {file : String} {overrides format : Option String} {words : List String}

/-! ### Commands before the last -/

/-- A command without options that begin like the ones for overrides and for the form of the output
takes their words as they are. -/
theorem IsConvertCall.forall_foreign {s : Signature} (h : IsConvertCall file overrides format words)
    (hoverrides : IsForeign s overridesName) (hformat : IsForeign s formatName) :
    ∀ t ∈ words, IsPlain t ∨ IsForeign s t := by
  obtain ⟨overridesWords, formatWords, pieces, hov, hfm, hperm, rfl⟩ := h.spelled
  have hoption {name : String} {value : Option String} {ws : List String}
      (hws : IsOptionally name value ws) (hname : IsForeign s name) (heq : '=' ∉ name.toList) :
      ∀ t ∈ ws, IsPlain t ∨ IsForeign s t := by
    cases hws with
    | absent => exact fun _ ht => absurd ht List.not_mem_nil
    | attached value => simpa using .inr (hname.attached heq value)
    | apart hvalue => simpa using ⟨.inr hname, .inl hvalue⟩
  intro t ht
  obtain ⟨piece, hpiece, ht⟩ := List.mem_flatten.mp ht
  rcases List.mem_cons.mp (hperm.mem_iff.mp hpiece) with rfl | hpiece
  · exact .inl (List.mem_singleton.mp ht ▸ h.isPlain_file)
  · rcases List.mem_cons.mp hpiece with rfl | hpiece
    · exact hoption hov hoverrides (by decide) t ht
    · rw [List.mem_singleton.mp hpiece] at ht
      exact hoption hfm hformat (by decide) t ht

/-- The program takes the words for the operand that selects a subcommand. -/
theorem exists_parse?_program (h : IsConvertCall file overrides format words) :
    ∃ b, Program.standard.suite.signature.parse?
        ("workflow" :: "automaton" :: "convert" :: words) = .ok (b, []) ∧
      b.find? Argument.commandKey =
        some (.list (("workflow" :: "automaton" :: "convert" :: words).map .text)) := by
  have hforeign := h.forall_foreign (s := Program.standard.suite.signature)
    ⟨by decide, by decide, by decide⟩ ⟨by decide, by decide, by decide⟩
  refine Signature.exists_parse?_command (a := .command [("workflow", some "run a workflow")]) rfl
    ⟨rfl, rfl⟩ (by decide) (by rfl) (by decide) ?_
  exact List.forall_mem_cons.mpr ⟨.inl (by decide), List.forall_mem_cons.mpr
    ⟨.inl (by decide), hforeign⟩⟩

/-- The subcommand that runs workflows. -/
def workflowSubcommand : Subcommand := ⟨"WorkflowCommand", some "run a workflow", .runsWorkflows⟩

/-- The subcommand takes a word for the name of the workflow and the others for its arguments. -/
theorem exists_parse?_workflow (h : IsConvertCall file overrides format words) :
    ∃ b, (workflowSubcommand.signature "workflow").parse? ("automaton" :: "convert" :: words) =
        .ok (b, []) ∧
      b.find? "workflow" = some (.text "automaton") ∧
      b.find? "args" = some (.list (("convert" :: words).map .text)) ∧
      b.find? "include_package" = some (.list []) := by
  let s := workflowSubcommand.signature "workflow"
  have hforeign := h.forall_foreign (s := s) ⟨by decide, by decide, by decide⟩
    ⟨by decide, by decide, by decide⟩
  let name : Taking :=
    ⟨.operand "workflow" .optional "workflow name to run", ["automaton"], .text "automaton"⟩
  let arguments : Taking :=
    ⟨.operand "args" .rest "arguments to pass to the workflow", "convert" :: words,
      .list (("convert" :: words).map .text)⟩
  have hplan : s.plan? ("automaton" :: "convert" :: words) = .ok ([name, arguments].map Taking.step) :=
    Signature.plan?_rest rfl rfl rfl (by decide)
      (List.forall_mem_cons.mpr ⟨.inl (by decide), hforeign⟩)
  have hname : name.IsRead :=
    ⟨Argument.valueOf?_singleton (.inr rfl) rfl (by decide) rfl, rfl⟩
  have harguments : arguments.IsRead := ⟨Argument.valueOf?_rest rfl rfl _, rfl⟩
  have hrequired : ∀ a ∈ s.arguments, a.required = false := by decide
  obtain ⟨b, hb, hfind, hinitial⟩ := Signature.exists_parse? (s := s) hplan
    (by simpa using ⟨hname, harguments⟩) (by simp [name, arguments, Argument.operand])
    (by decide) fun a ha hr => by simp [hrequired a ha] at hr
  refine ⟨b, hb, hfind name (by simp), hfind arguments (by simp), hinitial _ ?_⟩
  simp [name, arguments, Argument.operand]

/-! ### The workflow -/

/-- The method that converts automata. -/
def convertMethod : Method := automatonWorkflow.methods[0]

/-- The method that shows automata. -/
def showMethod : Method := automatonWorkflow.methods[1]

/-- The arguments of the method that converts automata. -/
def convertSignature : Signature where
  program := programName ++ " convert"
  usage := none
  description := convertMethod.description
  arguments := [.help, filenameParameter.argument, overridesParameter.argument,
    formatParameter.argument]

/-- The arguments of the method that shows automata. -/
def showSignature : Signature where
  program := programName ++ " show"
  usage := none
  description := showMethod.description
  arguments := [.help, filenameParameter.argument, overridesParameter.argument]

/-- The commands of the workflow. -/
def automatonSuite : Suite where
  signature := ⟨programName, none, automatonWorkflow.description,
    [.help, .command [(convertMethod.name, convertMethod.description),
      (showMethod.name, showMethod.description)]]⟩
  commands := [(convertMethod.name, convertSignature), (showMethod.name, showSignature)]

theorem commands_automatonWorkflow : automatonWorkflow.commands = [convertMethod, showMethod] := by
  have hpublic : (automatonWorkflow.methods.filter fun m => !m.name.startsWith "_") =
      automatonWorkflow.methods := by
    rw [List.filter_eq_self]
    simp only [automatonWorkflow, List.forall_mem_cons, Bool.not_eq_true',
      String.startsWith_string_eq_false_iff]
    decide
  rw [Workflow.commands, hpublic]
  rfl

theorem suite?_automatonWorkflow : automatonWorkflow.suite? = .ok automatonSuite := by
  rw [Workflow.suite?, commands_automatonWorkflow]
  rfl

theorem exists_parse?_automatonSuite (h : IsConvertCall file overrides format words) :
    ∃ b, automatonSuite.signature.parse? ("convert" :: words) = .ok (b, []) ∧
      b.find? Argument.commandKey = some (.list (("convert" :: words).map .text)) := by
  have hforeign := h.forall_foreign (s := automatonSuite.signature)
    ⟨by decide, by decide, by decide⟩ ⟨by decide, by decide, by decide⟩
  exact Signature.exists_parse?_command (a := .command [(convertMethod.name,
    convertMethod.description), (showMethod.name, showMethod.description)]) rfl ⟨rfl, rfl⟩
    (by decide) (by rfl) (by decide) hforeign

/-! ### The method -/

/-- The arguments of the method with the values that are given for them. -/
def givenValues (file : String) (overrides format : Option String) : List (Argument × String) :=
  (filenameParameter.argument, file) ::
    (overrides.toList.map (overridesParameter.argument, ·) ++
      format.toList.map (formatParameter.argument, ·))

/-- Words that spell values one after the other. -/
def SpellTogether (s : Signature) (words : List String) (given : List (Argument × String)) : Prop :=
  ∃ texts, List.Forall₂ (fun g ts => Spells s g.1 g.2 ts) given texts ∧ words = texts.flatten

theorem IsOptionally.spellTogether {s : Signature} {a : Argument} {name : String}
    {value : Option String} (h : IsOptionally name value words) (ha : IsSpelling s name a) :
    SpellTogether s words (value.toList.map (a, ·)) := by
  cases h with
  | absent => exact ⟨[], .nil, rfl⟩
  | attached value => exact ⟨[_], .cons (.attached ha value) .nil, by simp⟩
  | apart hvalue => exact ⟨[_], .cons (.apart ha hvalue) .nil, by simp⟩

/-- Pieces that spell lists of values spell the values together. -/
theorem spellTogether_flatten {s : Signature} {pieces : List (List String)}
    {given : List (List (Argument × String))} (h : List.Forall₂ (SpellTogether s) pieces given) :
    SpellTogether s pieces.flatten given.flatten := by
  induction h with
  | nil => exact ⟨[], .nil, rfl⟩
  | cons hpiece _ ih =>
    obtain ⟨texts, htexts, rfl⟩ := hpiece
    obtain ⟨texts', htexts', heq⟩ := ih
    refine ⟨texts ++ texts', List.rel_append htexts htexts', ?_⟩
    rw [List.flatten_cons, heq, List.flatten_append]

/-- The words of a call spell its values in some order. -/
theorem IsConvertCall.exists_spellTogether (h : IsConvertCall file overrides format words) :
    ∃ given, given.Perm (givenValues file overrides format) ∧
      SpellTogether convertSignature words given := by
  obtain ⟨overridesWords, formatWords, pieces, hov, hfm, hperm, rfl⟩ := h.spelled
  have hfile : SpellTogether convertSignature [file] [(filenameParameter.argument, file)] :=
    ⟨[[file]], .cons (.operand rfl h.isPlain_file) .nil, rfl⟩
  have hoverrides : IsSpelling convertSignature overridesName overridesParameter.argument :=
    ⟨rfl, by decide, by decide⟩
  have hformat : IsSpelling convertSignature formatName formatParameter.argument :=
    ⟨rfl, by decide, by decide⟩
  obtain ⟨given, hgiven, hperm'⟩ := List.perm_comp_forall₂ hperm
    (.cons hfile (.cons (hov.spellTogether hoverrides) (.cons (hfm.spellTogether hformat) .nil)))
  refine ⟨given.flatten, ?_, spellTogether_flatten hgiven⟩
  simpa [givenValues] using hperm'.flatten

/-- The value of a word: a separator does not count. -/
def countedValue (word : String) : Value := if word = separatorText then .list [] else .text word

/-- An argument with the value that is given for it. -/
def givenTaking (g : Argument × String) : Taking := ⟨g.1, [g.2], countedValue g.2⟩

theorem mem_givenValues_iff {g : Argument × String} :
    g ∈ givenValues file overrides format ↔ g = (filenameParameter.argument, file) ∨
      (∃ v ∈ overrides, g = (overridesParameter.argument, v)) ∨
        ∃ f ∈ format, g = (formatParameter.argument, f) := by
  simp [givenValues, eq_comm]

theorem filter_operands_givenValues (file : String) (overrides format : Option String) :
    ((givenValues file overrides format).map (·.1)).filter (fun a => !a.isOption) =
      convertSignature.arguments.filter fun a => !a.isOption := by
  cases overrides <;> cases format <;> rfl

theorem map_key_givenValues (file : String) (overrides format : Option String) :
    (givenValues file overrides format).map (·.1.key) =
      "config_filename" :: ((overrides.map fun _ => "overrides").toList ++
        (format.map fun _ => "output_format").toList) := by
  cases overrides <;> cases format <;> rfl

theorem nodup_keys_givenValues (file : String) (overrides format : Option String) :
    ((givenValues file overrides format).map (·.1.key)).Nodup := by
  rw [map_key_givenValues]
  cases overrides <;> cases format <;> simp

theorem IsConvertCall.isRead (h : IsConvertCall file overrides format words)
    {g : Argument × String} (hg : g ∈ givenValues file overrides format) :
    g.1.arity = .one ∧ (givenTaking g).IsRead := by
  rcases mem_givenValues_iff.mp hg with rfl | ⟨v, -, rfl⟩ | ⟨f, hf, rfl⟩
  · have hvalue : countedValue file = .text file := if_neg h.isPlain_file.ne_separatorText
    refine ⟨rfl, ?_, rfl⟩
    rw [givenTaking, hvalue]
    exact Argument.valueOf?_singleton (.inl rfl) rfl h.isPlain_file.ne_separatorText rfl
  · refine ⟨rfl, ?_, rfl⟩
    rw [givenTaking, countedValue]
    split
    · rename_i hv
      exact hv ▸ Argument.valueOf?_separator rfl
    · rename_i hv
      exact Argument.valueOf?_singleton (.inl rfl) rfl hv rfl
  · rcases h.known_format f hf with rfl | rfl
    · exact ⟨rfl, rfl, rfl⟩
    · exact ⟨rfl, rfl, rfl⟩

/-- The plan for the words binds the values in the order in which they are spelled. -/
theorem IsConvertCall.exists_plan? (h : IsConvertCall file overrides format words) :
    ∃ given, List.Perm given (givenValues file overrides format) ∧
      convertSignature.plan? words = .ok ((given.map givenTaking).map Taking.step) := by
  obtain ⟨given, hperm, texts, hspells, rfl⟩ := h.exists_spellTogether
  have hoperands : (given.map (·.1)).filter (fun a => !a.isOption) =
      convertSignature.arguments.filter fun a => !a.isOption := by
    have hp := (hperm.map (·.1)).filter fun a => !a.isOption
    rw [filter_operands_givenValues] at hp
    exact List.perm_singleton.mp hp
  refine ⟨given, hperm, ?_⟩
  rw [Signature.plan?_of_spells (by decide) hspells
    (fun g hg => (h.isRead (hperm.mem_iff.mp hg)).1) hoperands (by decide), List.map_map]
  rfl

/-- Only the file has to be given. -/
theorem mem_identities_givenValues {a : Argument} (ha : a ∈ convertSignature.arguments)
    (hrequired : a.required = true) :
    a.identity ∈ (givenValues file overrides format).map (·.1.identity) := by
  have honly : ∀ a ∈ convertSignature.arguments, a.required = true →
      a.identity = filenameParameter.argument.identity := by decide
  rw [honly a ha hrequired]
  exact List.mem_cons_self

/-- The words are bound to the arguments in whichever order they are given. -/
theorem exists_parse?_givenValues (h : IsConvertCall file overrides format words) :
    ∃ b, convertSignature.parse? words = .ok (b, []) ∧
      (∀ g ∈ givenValues file overrides format, b.find? g.1.key = some (countedValue g.2)) ∧
      ∀ k ∉ (givenValues file overrides format).map (·.1.key),
        b.find? k = convertSignature.initial.bindings.find? k := by
  obtain ⟨given, hperm, hplan⟩ := h.exists_plan?
  have hkeys : ((given.map givenTaking).map (·.argument.key)).Nodup := by
    rw [List.map_map]
    exact (hperm.map _).nodup_iff.mpr (nodup_keys_givenValues file overrides format)
  have hrequired (a : Argument) (ha : a ∈ convertSignature.arguments) (hr : a.required = true) :
      a.identity ∈ (given.map givenTaking).map (·.argument.identity) := by
    rw [List.map_map]
    exact (hperm.map fun g => g.1.identity).mem_iff.mpr (mem_identities_givenValues ha hr)
  obtain ⟨b, hb, hfind, hinitial⟩ := Signature.exists_parse? hplan
    (List.forall_mem_map.mpr fun g hg => (h.isRead (hperm.mem_iff.mp hg)).2) hkeys (by decide)
    hrequired
  refine ⟨b, hb, fun g hg => ?_, fun k hk => hinitial k ?_⟩
  · exact hfind _ (List.mem_map_of_mem (hperm.mem_iff.mpr hg))
  · exact List.forall_mem_map.mpr fun g hg heq =>
      hk (List.mem_map.mpr ⟨g, hperm.mem_iff.mp hg, heq⟩)

/-- What the keys of the method are bound to. -/
theorem exists_parse?_convert (h : IsConvertCall file overrides format words) :
    ∃ b, convertSignature.parse? words = .ok (b, []) ∧
      b.find? "config_filename" = some (.text file) ∧
      b.find? "overrides" = some ((overrides.map countedValue).getD .null) ∧
      b.find? "output_format" = some (.text (format.getD "text")) ∧
      b.find? Workflow.methodKey = none := by
  obtain ⟨b, hb, hvalue, habsent⟩ := exists_parse?_givenValues h
  rw [map_key_givenValues] at habsent
  refine ⟨b, hb, ?_, ?_, ?_, ?_⟩
  · rw [← show countedValue file = .text file from if_neg h.isPlain_file.ne_separatorText]
    exact hvalue _ (mem_givenValues_iff.mpr (.inl rfl))
  · cases overrides with
    | none => exact habsent _ (by cases format <;> simp)
    | some v => exact hvalue _ (mem_givenValues_iff.mpr (.inr (.inl ⟨v, rfl, rfl⟩)))
  · cases format with
    | none => exact habsent _ (by cases overrides <;> simp)
    | some f =>
      have hf := hvalue _ (mem_givenValues_iff.mpr (.inr (.inr ⟨f, rfl, rfl⟩)))
      rcases h.known_format f rfl with rfl | rfl <;> exact hf
  · exact habsent _ (by cases overrides <;> cases format <;> simp [Workflow.methodKey])

theorem text_eq_countedText {b : Bindings} {key : String} {value : Option String}
    (h : b.find? key = some ((value.map countedValue).getD .null)) :
    b.text key = countedText value := by
  rw [Bindings.text, Bindings.value, h]
  cases value with
  | none => rfl
  | some v => by_cases hv : v = separatorText <;> simp [countedText, countedValue, hv]

/-! ### Runs -/

/-- What the method does with a file, overrides and a form of the output. -/
def convertFile (s : Surroundings) (file overrides : String) (asJson : Bool) : Run :=
  let run := match loadConfig? s file overrides with
    | .ok c => c.convert asJson
    | .error run => run
  run.logging [.loading file]

/-- The words are a call of the method with what they give. -/
theorem run_automatonWorkflow (h : IsConvertCall file overrides format words) (s : Surroundings) :
    automatonWorkflow.run s ("convert" :: words) =
      convertFile s file (countedText overrides) (format = some "json") := by
  obtain ⟨b, hb, hcommand⟩ := exists_parse?_automatonSuite h
  obtain ⟨b', hb', hfile, hoverrides, hformat, hmethod⟩ := exists_parse?_convert h
  have hparse : automatonSuite.parse? ("convert" :: words) = .ok (some ("convert", b')) :=
    Suite.parse?_eq_ok hb hcommand rfl hb'
  have hcall : automatonWorkflow.call? ("convert" :: words) = .ok (convertMethod, b') := by
    rw [Workflow.call?, suite?_automatonWorkflow]
    simp only [List.isEmpty_cons, Bool.false_eq_true, if_false, hparse, commands_automatonWorkflow]
    have hselected : (some ("convert", b')).bind (fun x =>
        ([convertMethod, showMethod].find? (·.name == x.1)).map (·, x.2)) =
          some (convertMethod, b') := rfl
    simp only [hselected, hmethod]
  have hjson : (b'.text "output_format" == "json") = decide (format = some "json") := by
    rw [Bindings.text_eq hformat]
    cases format with
    | none => rfl
    | some f => simp [beq_eq_decide]
  rw [Workflow.run, hcall]
  change withConfig s b' (fun c => c.convert (b'.text "output_format" == "json")) = _
  rw [withConfig, hjson, text_eq_countedText hoverrides, Bindings.text_eq hfile]
  rfl

/-- The program converts the file, whichever order the words have. -/
theorem Program.run_convert (h : IsConvertCall file overrides format words) (s : Surroundings) :
    Program.standard.run s ("workflow" :: "automaton" :: "convert" :: words) =
      convertFile s file (countedText overrides) (format = some "json") := by
  obtain ⟨b, hb, hcommand⟩ := exists_parse?_program h
  obtain ⟨b', hb', hname, harguments, hpackages⟩ := exists_parse?_workflow h
  have hparse : Program.standard.suite.parse?
      ("workflow" :: "automaton" :: "convert" :: words) = .ok (some ("workflow", b')) :=
    Suite.parse?_eq_ok hb hcommand rfl hb'
  rw [Program.run, hparse]
  change Program.standard.runArguments s _ b' = _
  have hnone : b'.texts "include_package" = [] := by
    rw [Bindings.texts, Bindings.value, hpackages]
    rfl
  rw [Program.runArguments, Bindings.text_eq hname, Bindings.texts_eq harguments, hnone]
  exact run_automatonWorkflow h s

end Determinize
