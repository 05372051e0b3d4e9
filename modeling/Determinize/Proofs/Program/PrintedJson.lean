import Determinize.Proofs.Config.Scalars
import Determinize.Proofs.Program.Library

/-!
# The printed JSON

For a configuration over scalars, the program prints one line, and this is JSON from which the data
of the automaton can be read back exactly, with their types. So automata with different data are
printed differently.

## Main definitions

* `IsJsonCall` — the program is called to convert a configuration over scalars and to print JSON.

## Main results

* `run_convert_json` — what is printed is read back.
-/

namespace Determinize

open CommandLine Value

/-- The words after `workflow automaton convert` ask for JSON and name a file with a configuration
over scalars that is converted without an error. -/
structure IsJsonCall (s : Surroundings) (words : List String) (c : AutomatonConfig)
    (r : Conversion) : Prop where
  sound : s.Sound
  loaded : ∃ file text overrides x, s.file? file = some text ∧
    IsConvertCall file overrides (some "json") words ∧
    s.load? text (countedText overrides) = .ok x ∧ x.HasField "nfa" ∧ s.build? x = .ok c
  overScalars : ∀ d, c.nfa = some d → d.OverScalars
  converted : c.convert? = .ok r

variable {s s' : Surroundings} {words words' : List String} {c c' : AutomatonConfig}
  {r r' : Conversion}

theorem line_inj {a b : String} (h : line a = line b) : a = b := by
  have hlist := congrArg String.toList h
  simp only [line, String.toList_append] at hlist
  exact String.toList_inj.mp (List.append_cancel_right hlist)

/-- The data of the automaton are exact. -/
theorem IsJsonCall.isExact (h : IsJsonCall s words c r) : r.dfa.toValue.IsExact := by
  obtain ⟨file, text, overrides, x, -, -, hload, -, hbuild⟩ := h.loaded
  obtain ⟨hx, -⟩ := h.sound.isJson_and_writable hload
  obtain ⟨n, hn, hconvert⟩ := exists_of_bind_eq_ok h.converted
  cases hd : c.nfa with
  | none =>
    rw [AutomatonConfig.nfa?, hd] at hn
    cases hn
  | some d =>
    have hchecked := h.sound.build.nfa x c d hx hbuild hd
    have hscalars := AutomatonConfig.over_of_convert? (P := (·.isScalar = true)) hd hchecked
      (hchecked.over_isScalar (h.overScalars d hd)) (fun v => h.sound.build.conversion x c v hx hbuild)
      (fun _ hy => hy.isScalar) h.converted
    split at hconvert
    · cases hconvert
    · obtain ⟨target, htable⟩ := Nfa.exists_isTable_of_convert? (mapError_eq_ok_iff.mp hconvert)
      exact htable.isExact_toValue hscalars

/-- The program prints the data of the automaton on a line. -/
theorem IsJsonCall.run_eq (h : IsJsonCall s words c r) :
    let run := Program.standard.run s ("workflow" :: "automaton" :: "convert" :: words)
    run.ending = .returned ∧ run.errors = "" ∧ r.dfa.toValue? = .ok r.dfa.toValue ∧
      run.output = line (Json.render r.dfa.toValue) := by
  intro run
  obtain ⟨file, text, overrides, x, hfile, hcall, hload, hfield, hbuild⟩ := h.loaded
  have hconvert : s.convertText? text (countedText overrides) = .ok r := by
    rw [convertText?_of_build_ok hload hbuild, h.converted]
    rfl
  have hrun : run = convertFile s file (countedText overrides) (some "json" = some "json") :=
    Program.run_convert hcall s
  rw [hrun]
  have hfollows : (convertFile s file (countedText overrides) _).Follows s text
    (countedText overrides) (some "json" = some "json") := follows_convertFile h.sound hfile _
  obtain ⟨hending, shown, hshown, houtput⟩ := hfollows.success x r hload hfield hconvert
  obtain ⟨data, hdata, hrender⟩ : ∃ data, r.dfa.toValue? = .ok data ∧ Json.render? data = some shown :=
    hshown
  cases Dfa.eq_toValue_of_toValue?_eq_ok hdata
  refine ⟨hending, hfollows.errors, hdata, houtput.trans (congrArg line ?_)⟩
  rw [Json.render?] at hrender
  split at hrender
  · exact (Option.some.inj hrender).symm
  · cases hrender

/-- The program prints exactly one line, which is read back as the data of the automaton. No other
data are printed alike. -/
theorem run_convert_json (h : IsJsonCall s words c r) :
    let run := fun (s : Surroundings) (words : List String) =>
      Program.standard.run s ("workflow" :: "automaton" :: "convert" :: words)
    (run s words).ending = .returned ∧ (run s words).errors = "" ∧
      (∃ data shown, r.dfa.toValue? = .ok data ∧ (run s words).output = line shown ∧
        '\n' ∉ shown.toList ∧ '\r' ∉ shown.toList ∧ Json.parse? shown = some data) ∧
      ∀ s' words' c' r', IsJsonCall s' words' c' r' →
        (run s' words').output = (run s words).output → r'.dfa.toValue? = r.dfa.toValue? := by
  intro run
  obtain ⟨hending, herrors, hdata, houtput⟩ := h.run_eq
  have hline := h.isExact.isLine_write
  refine ⟨hending, herrors,
    ⟨_, Json.render r.dfa.toValue, hdata, houtput, ?_, ?_, h.isExact.parse?_render⟩, ?_⟩
  · rw [Json.render, String.toList_ofList]
    exact hline.not_mem (by decide)
  · rw [Json.render, String.toList_ofList]
    exact hline.not_mem (by decide)
  · intro s' words' c' r' h' hsame
    obtain ⟨-, -, hdata', houtput'⟩ := h'.run_eq
    rw [hdata, hdata', h'.isExact.render_inj h.isExact (line_inj ?_)]
    exact houtput'.symm.trans (hsame.trans houtput)

/-- A text for an automaton with a quote and a line feed in a symbol. -/
def quotedText : String :=
  "\x7bnfa: \x7btransitions: [[true, 'a\"\\n', 'é']], start_states: [true], " ++
    "accept_states: [null]\x7d\x7d"

/-- The data that the text denotes. -/
def quotedData : Value :=
  .object [("nfa", .object [("accept_states", .list [.null]), ("start_states", .list [.bool true]),
    ("transitions", .list [.list [.bool true, .text "a\"\n", .text "é"]])])]

theorem load?_quotedText : load? evaluateText? [] quotedText "" = .ok quotedData := by
  have htext : Document.ofString? quotedText = some (.object [("nfa", .object
      [("transitions", .list [.list [.bool true, .text "a\"\n", .text "é"]]),
        ("start_states", .list [.bool true]), ("accept_states", .list [.null])])]) := rfl
  refine load?_eq_ok_iff.mpr ⟨quotedData, [], readData?_eq_ok_iff.mpr ⟨?_, rfl⟩, rfl, rfl⟩
  rw [evaluateText?, htext]
  simp only [Document.evaluate?, Document.evaluateIn?, Document.evaluateFields?,
    Document.evaluateItems?]
  rfl

/-- The configuration that the data describe. -/
def quotedConfig : AutomatonConfig where
  nfa := some ⟨.list [.list [.bool true, .text "a\"\n", .text "é"]], .list [.bool true],
    .list [.null], Nfa.defaultMarker⟩
  conversion := some .standard
  source := quotedData

/-- The quote and the line feed are read back. -/
theorem run_convert_json_quoted :
    let run := Program.standard.run { files := [("c.jsonnet", quotedText)], environment := [] }
      ["workflow", "automaton", "convert", "--output-format=json", "c.jsonnet"]
    ∃ shown, run.output = line shown ∧ '\n' ∉ shown.toList ∧
      Json.parse? shown = some (.object [("start", .list [.bool true]),
        ("alphabet", .list [.text "a\"\n"]), ("accept_states", .list []),
        ("transitions", .list [
          .object [("source", .list [.bool true]), ("symbol", .text "a\"\n"),
            ("target", .list [.text "é"])],
          .object [("source", .list [.text "é"]), ("symbol", .text "a\"\n"), ("target", .list [])],
          .object [("source", .list []), ("symbol", .text "a\"\n"), ("target", .list [])]])]) := by
  intro run
  have hcall : IsConvertCall "c.jsonnet" none (some "json") ["--output-format=json", "c.jsonnet"] :=
    ⟨by decide, by simp, _, _, [["--output-format=json"], ["c.jsonnet"], []], .absent,
      .attached "json", by decide, rfl⟩
  have hjson : IsJsonCall { files := [("c.jsonnet", quotedText)], environment := [] }
      ["--output-format=json", "c.jsonnet"] quotedConfig _ :=
    { sound := Surroundings.sound_standard _ _
      loaded := ⟨"c.jsonnet", quotedText, none, quotedData, rfl, hcall, load?_quotedText,
        ⟨_, _, rfl, rfl⟩, rfl⟩
      overScalars := by
        intro d hd
        cases hd
        simp [NfaConfig.OverScalars, listItems, isScalar]
      converted := rfl }
  obtain ⟨-, -, ⟨data, shown, hdata, houtput, hline, -, hread⟩, -⟩ := run_convert_json hjson
  cases Except.ok.inj hdata
  exact ⟨shown, houtput, hline, hread⟩

end Determinize
