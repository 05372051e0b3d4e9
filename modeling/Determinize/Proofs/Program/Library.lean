import Determinize.Proofs.Config.Scalars
import Determinize.Proofs.Program.Call

/-!
# The program and the library

The conversion can also be asked for without the command line: the text of a file is loaded with
overrides, a configuration is built from the data, and this is converted. The program comes to the
same end, whichever order its words have. It fails with the same error, and then nothing is printed;
and if there is no error, it prints the text or the JSON of the automaton on lines of its own. Data
that do not describe an automaton are the one case in which it does something else: it prints a
message and leaves.

This is so whatever evaluates the text and builds the configuration. Of these it is only assumed that the
data are data as JSON has them and that the types in a configuration have been checked, so that what is
printed can be written.

An attached value `--` for the overrides never gets to the library. It does not count, while the
library would try to evaluate it.

## Main definitions

* `Surroundings.Sound` — what is known of what evaluates documents and builds configurations.
* `convertText?` — the conversion without the command line.
* `Run.Follows` — a run of the program comes to the same end.

## Main results

* `follows_run_convert` — what the program does with a file.
-/

namespace Determinize

open CommandLine

/-- An object with a field of the given name. -/
def Value.HasField (x : Value) (key : String) : Prop :=
  ∃ fields y, x = .object fields ∧ fields.lookup key = some y

namespace Surroundings

/-- What is known of what evaluates documents and builds configurations. -/
structure Sound (s : Surroundings) : Prop where
  evaluate : s.evaluate.DeliversData
  build : s.build?.ChecksTypes

theorem sound_standard (files environment : List (String × String)) :
    Sound { files := files, environment := environment } :=
  ⟨deliversData_evaluateText?, AutomatonConfig.checksTypes_ofValue?⟩

/-- The data that a text denotes after overrides. -/
def load? (s : Surroundings) (text overrides : String) : Except LoadError Value :=
  Determinize.load? s.evaluate s.environment text overrides

/-- The conversion of the configuration that a text denotes after overrides. -/
def convertText? (s : Surroundings) (text overrides : String) : Except Failure Conversion := do
  let x ← (s.load? text overrides).mapError .load
  let c ← (s.build? x).mapError .build
  c.convert?.mapError .config

end Surroundings

/-- A text is what is shown of a conversion: the text of the automaton, or its data as JSON. -/
def Conversion.Shows (r : Conversion) (asJson : Bool) (shown : String) : Prop :=
  if asJson then ∃ data, r.dfa.toValue? = .ok data ∧ Json.render? data = some shown
  else r.dfa.render? = .ok shown

/-- A run of the program does what the library does with the text of a file and overrides. -/
structure Run.Follows (r : Run) (s : Surroundings) (text overrides : String) (asJson : Bool) : Prop where
  errors : r.errors = ""
  load_error : ∀ e, s.load? text overrides = .error e → r.output = "" ∧ r.ending = .failed (.load e)
  no_nfa : ∀ x, s.load? text overrides = .ok x → ¬ x.HasField "nfa" →
    r.output = line "No nfa given." ∧ r.ending = .exited 1
  failure : ∀ x e, s.load? text overrides = .ok x → x.HasField "nfa" →
    s.convertText? text overrides = .error e → r.output = "" ∧ r.ending = .failed e
  success : ∀ x c, s.load? text overrides = .ok x → x.HasField "nfa" →
    s.convertText? text overrides = .ok c →
      r.ending = .returned ∧ ∃ shown, c.Shows asJson shown ∧ r.output = line shown

variable {s : Surroundings} {file text overrides : String} {x : Value} {c : AutomatonConfig}

/-! ### Loading -/

/-- What is loaded are JSON data that can be written. -/
theorem Surroundings.Sound.isJson_and_writable (hs : s.Sound) (h : s.load? text overrides = .ok x) :
    x.IsJson ∧ x.writable = true :=
  have hloaded := hs.evaluate.isLoaded_of_load? h
  ⟨hloaded.isJson, Option.isNone_iff_eq_none.mpr hloaded.excess?_eq_none⟩

theorem loadConfig?_of_load_error {e : LoadError} (hfile : s.file? file = some text)
    (h : s.load? text overrides = .error e) :
    loadConfig? s file overrides = .error (.failing (.load e)) := by
  rw [Surroundings.load?] at h
  simp only [loadConfig?, hfile, h]
  rfl

theorem loadConfig?_of_not_hasField (hfile : s.file? file = some text)
    (h : s.load? text overrides = .ok x) (hx : ¬ x.HasField "nfa") :
    loadConfig? s file overrides = .error (.leaving (line "No nfa given.") 1) := by
  rw [Surroundings.load?] at h
  simp only [loadConfig?, hfile, h]
  cases x with
  | object fields =>
    have hnone : fields.lookup "nfa" = none :=
      Option.eq_none_iff_forall_ne_some.mpr fun y hy => hx ⟨fields, y, rfl, hy⟩
    change (do
      if (fields.lookup "nfa").isNone then throw (Run.leaving "No nfa given.\n" 1)
      (s.build? (.object fields)).mapError fun e => Run.failing (.build e)) = _
    rw [hnone]
    rfl
  | null | bool | int | real | text | list | tuple => rfl

theorem loadConfig?_of_hasField (hfile : s.file? file = some text)
    (h : s.load? text overrides = .ok x) (hx : x.HasField "nfa") :
    loadConfig? s file overrides = (s.build? x).mapError fun e => .failing (.build e) := by
  obtain ⟨fields, y, rfl, hy⟩ := hx
  rw [Surroundings.load?] at h
  simp only [loadConfig?, hfile, h]
  change (do
    if (fields.lookup "nfa").isNone then throw (Run.leaving "No nfa given.\n" 1)
    (s.build? (.object fields)).mapError fun e => Run.failing (.build e)) = _
  rw [hy]
  rfl

/-! ### Converting -/

/-- The conversion of a configuration that was built from data can be shown. -/
theorem Surroundings.Sound.exists_printed? (hs : s.Sound) (hload : s.load? text overrides = .ok x)
    (hbuild : s.build? x = .ok c) {r : Conversion} (h : c.convert? = .ok r) (asJson : Bool) :
    ∃ shown, r.printed? asJson = .ok shown ∧ r.Shows asJson shown := by
  obtain ⟨hx, hx'⟩ := hs.isJson_and_writable hload
  obtain ⟨n, hn, hconvert⟩ := exists_of_bind_eq_ok h
  cases hd : c.nfa with
  | none =>
    rw [AutomatonConfig.nfa?, hd] at hn
    cases hn
  | some d =>
    have hchecked := hs.build.nfa x c d hx hbuild hd
    have hover := AutomatonConfig.over_of_convert? (P := (·.writable = true)) hd hchecked
      ((hs.build.writable x c d hx' hbuild hd).over hchecked)
      (fun v => hs.build.conversion x c v hx hbuild) (fun _ hy => hy.writable) h
    have hwritable := hover.writable
    split at hconvert
    · cases hconvert
    · obtain ⟨target, htable⟩ := Nfa.exists_isTable_of_convert? (mapError_eq_ok_iff.mp hconvert)
      cases asJson with
      | true =>
        have hdata : r.dfa.toValue? = .ok r.dfa.toValue := by
          rw [Dfa.toValue?_eq, if_pos (htable.listable_of_writable hwritable)]
        have hrender : Json.render? r.dfa.toValue = some (Json.render r.dfa.toValue) :=
          if_pos (htable.writable_toValue hwritable)
        refine ⟨_, ?_, _, hdata, hrender⟩
        rw [Conversion.printed?, if_pos rfl, hdata]
        change orTooManyDigits (Json.render? r.dfa.toValue) = _
        rw [hrender]
        rfl
      | false =>
        have hrender := htable.render?_eq
        rw [if_pos hwritable] at hrender
        exact ⟨_, hrender, hrender⟩

theorem convert_of_error {e : ConfigError} (h : c.convert? = .error e) (asJson : Bool) :
    c.convert asJson = .failing (.config e) := by
  rw [AutomatonConfig.convert, h]

/-- A conversion that is shown is printed on lines of its own. -/
theorem convert_of_ok {r : Conversion} {shown : String} {asJson : Bool} (h : c.convert? = .ok r)
    (hshown : r.printed? asJson = .ok shown) :
    c.convert asJson = (Run.printing (line shown)).logging r.events := by
  rw [AutomatonConfig.convert, h]
  dsimp only
  rw [hshown]

/-! ### Runs -/

variable {asJson : Bool} {r : Run} {conversion : Conversion}

theorem convertText?_of_build_error {e : BuildError} (hload : s.load? text overrides = .ok x)
    (hbuild : s.build? x = .error e) : s.convertText? text overrides = .error (.build e) := by
  rw [Surroundings.convertText?, hload]
  change ((s.build? x).mapError Failure.build).bind _ = _
  rw [hbuild]
  rfl

theorem convertText?_of_build_ok (hload : s.load? text overrides = .ok x)
    (hbuild : s.build? x = .ok c) :
    s.convertText? text overrides = c.convert?.mapError .config := by
  rw [Surroundings.convertText?, hload]
  change ((s.build? x).mapError Failure.build).bind _ = _
  rw [hbuild]
  rfl

/-- A run that fails follows the library if the conversion of the text fails alike. -/
theorem follows_of_failed {e : Failure} (hquiet : r.output = "" ∧ r.errors = "")
    (hending : r.ending = .failed e) (htext : s.convertText? text overrides = .error e)
    (hload : ∀ x, s.load? text overrides = .ok x → x.HasField "nfa") :
    r.Follows s text overrides asJson where
  errors := hquiet.2
  load_error e' he' := by
    rw [Surroundings.convertText?, he'] at htext
    cases htext
    exact ⟨hquiet.1, hending⟩
  no_nfa x hx hnot := absurd (hload x hx) hnot
  failure x e' _ _ he' := by
    cases htext.symm.trans he'
    exact ⟨hquiet.1, hending⟩
  success _ _ _ _ hc := nomatch htext.symm.trans hc

/-- A run that prints that there is no automaton follows the library if this is so. -/
theorem follows_of_no_nfa (herrors : r.errors = "")
    (hleft : r.output = line "No nfa given." ∧ r.ending = .exited 1)
    (hload : s.load? text overrides = .ok x) (hx : ¬ x.HasField "nfa") :
    r.Follows s text overrides asJson where
  errors := herrors
  load_error e he := nomatch hload.symm.trans he
  no_nfa _ _ _ := hleft
  failure y e hy hfield _ := by
    cases hload.symm.trans hy
    exact absurd hfield hx
  success y c hy hfield _ := by
    cases hload.symm.trans hy
    exact absurd hfield hx

/-- A run that prints the automaton follows the library if the conversion of the text succeeds. -/
theorem follows_of_returned {shown : String} (herrors : r.errors = "")
    (hreturned : r.ending = .returned ∧ r.output = line shown)
    (htext : s.convertText? text overrides = .ok conversion) (hshown : conversion.Shows asJson shown)
    (hload : s.load? text overrides = .ok x) (hx : x.HasField "nfa") :
    r.Follows s text overrides asJson where
  errors := herrors
  load_error e he := nomatch hload.symm.trans he
  no_nfa y hy hnot := by
    cases hload.symm.trans hy
    exact absurd hx hnot
  failure y e _ _ he := nomatch htext.symm.trans he
  success y conversion' _ _ h := by
    cases htext.symm.trans h
    exact ⟨hreturned.1, shown, hshown, hreturned.2⟩

/-- What the program does with a file is what the library does with its text. -/
theorem follows_convertFile (hs : s.Sound) (hfile : s.file? file = some text) (asJson : Bool) :
    (convertFile s file overrides asJson).Follows s text overrides asJson := by
  rw [convertFile]
  cases hload : s.load? text overrides with
  | error e =>
    rw [loadConfig?_of_load_error hfile hload]
    exact follows_of_failed (e := .load e) ⟨rfl, rfl⟩ rfl
      (by rw [Surroundings.convertText?, hload]; rfl) fun x hx => nomatch hload.symm.trans hx
  | ok x =>
    by_cases hx : x.HasField "nfa"
    · have hfield (y : Value) (hy : s.load? text overrides = .ok y) : y.HasField "nfa" :=
        Except.ok.inj (hload.symm.trans hy) ▸ hx
      rw [loadConfig?_of_hasField hfile hload hx]
      cases hc : s.build? x with
      | error e =>
        exact follows_of_failed (e := .build e) ⟨rfl, rfl⟩ rfl
          (convertText?_of_build_error hload hc) hfield
      | ok c =>
        have htext := convertText?_of_build_ok hload hc
        change ((c.convert asJson).logging _).Follows _ _ _ _
        cases hconversion : c.convert? with
        | error e =>
          rw [hconversion] at htext
          rw [convert_of_error hconversion]
          exact follows_of_failed (e := .config e) ⟨rfl, rfl⟩ rfl htext hfield
        | ok conversion =>
          rw [hconversion] at htext
          obtain ⟨shown, hprinted, hshown⟩ := hs.exists_printed? hload hc hconversion asJson
          rw [convert_of_ok hconversion hprinted]
          exact follows_of_returned rfl ⟨rfl, rfl⟩ htext hshown hload hx
    · rw [loadConfig?_of_not_hasField hfile hload hx]
      exact follows_of_no_nfa rfl ⟨rfl, rfl⟩ hload hx

/-- In whichever order the words for a file, overrides and the form of the output come, the program
does what the library does with the text of the file. A separator does not count as overrides. -/
theorem follows_run_convert {overrides format : Option String} {words : List String} (hs : s.Sound)
    (hfile : s.file? file = some text) (h : IsConvertCall file overrides format words) :
    (Program.standard.run s ("workflow" :: "automaton" :: "convert" :: words)).Follows
      s text (countedText overrides) (format = some "json") := by
  rw [Program.run_convert h]
  exact follows_convertFile hs hfile _

/-- A text for an automaton without states. -/
def statelessText : String :=
  "\x7bnfa: \x7btransitions: [], start_states: [], accept_states: []\x7d\x7d"

/-- A text for overrides with a start state. -/
def startText : String := "\x7b'nfa.start_states': [true]\x7d"

theorem load?_statelessText : load? evaluateText? [] statelessText startText =
    .ok (.object [("nfa", .object [("accept_states", .list []),
      ("start_states", .list [.bool true]), ("transitions", .list [])])]) := by
  have htext : Document.ofString? statelessText = some (.object [("nfa", .object
      [("transitions", .list []), ("start_states", .list []), ("accept_states", .list [])])]) := rfl
  have hoverrides : Document.ofString? startText =
      some (.object [("nfa.start_states", .list [.bool true])]) := rfl
  refine load?_eq_ok_iff.mpr ⟨.object [("nfa", .object [("accept_states", .list []),
    ("start_states", .list []), ("transitions", .list [])])],
    [("nfa.start_states", .list [.bool true])], readData?_eq_ok_iff.mpr ⟨?_, rfl⟩,
    parseOverrides?_of_readData? (by decide) (readData?_eq_ok_iff.mpr ⟨?_, rfl⟩), rfl⟩
  · rw [evaluateText?, htext]
    simp only [Document.evaluate?, Document.evaluateIn?, Document.evaluateFields?,
      Document.evaluateItems?]
    rfl
  · rw [evaluateText?, hoverrides]
    simp only [Document.evaluate?, Document.evaluateIn?, Document.evaluateFields?,
      Document.evaluateItems?]
    rfl

/-- The form of the output before the file, and the overrides after it. -/
theorem run_convert_statelessText :
    let s : Surroundings := { files := [("c.jsonnet", statelessText)], environment := [] }
    let r := Program.standard.run s
      ["workflow", "automaton", "convert", "--output-format", "json", "c.jsonnet",
        "--overrides=" ++ startText]
    r.ending = .returned ∧ r.output = line
      "\x7b\"start\": [true], \"alphabet\": [], \"accept_states\": [], \"transitions\": []\x7d" := by
  intro s r
  have hcall : IsConvertCall "c.jsonnet" (some startText) (some "json")
      ["--output-format", "json", "c.jsonnet", "--overrides=" ++ startText] :=
    ⟨by decide, by simp, _, _, [["--output-format", "json"], ["c.jsonnet"],
      ["--overrides=" ++ startText]], .attached startText, .apart (by decide), by decide, rfl⟩
  have hfield : Value.HasField (.object [("nfa", .object [("accept_states", .list []),
      ("start_states", .list [.bool true]), ("transitions", .list [])])]) "nfa" := ⟨_, _, rfl, rfl⟩
  have htext : ∃ c, s.convertText? statelessText startText = .ok c ∧ ∀ shown, c.Shows true shown →
      shown =
        "\x7b\"start\": [true], \"alphabet\": [], \"accept_states\": [], \"transitions\": []\x7d" := by
    rw [Surroundings.convertText?, Surroundings.load?, load?_statelessText]
    refine ⟨_, rfl, ?_⟩
    rintro shown ⟨data, hdata, hshown⟩
    cases Except.ok.inj hdata
    exact (Option.some.inj hshown).symm
  obtain ⟨c, hc, hrender⟩ := htext
  have hfollows := follows_run_convert (s := s) (Surroundings.sound_standard _ _) rfl hcall
  obtain ⟨hending, shown, hshown, houtput⟩ := hfollows.success _ c load?_statelessText hfield hc
  exact ⟨hending, houtput.trans (congrArg line (hrender shown hshown))⟩

theorem evaluateText?_empty : evaluateText? [] "\x7b\x7d" = .ok (.object []) := by
  have hread : Document.ofString? "\x7b\x7d" = some (.object []) := rfl
  rw [evaluateText?, hread]
  simp only [Document.evaluate?, Document.evaluateIn?, Document.evaluateFields?]
  rfl

/-- An attached separator does not count as overrides, and so the program does not fail where the
library does. -/
theorem not_follows_run_convert_separator :
    let s : Surroundings := { files := [("c.jsonnet", "\x7b\x7d")], environment := [] }
    s.Sound ∧ s.file? "c.jsonnet" = some "\x7b\x7d" ∧
    IsConvertCall "c.jsonnet" (some "--") none ["c.jsonnet", "--overrides=--"] ∧
    ¬ (Program.standard.run s ["workflow", "automaton", "convert", "c.jsonnet",
      "--overrides=--"]).Follows s "\x7b\x7d" "--" false := by
  intro s
  have hs : s.Sound := Surroundings.sound_standard _ _
  have hcall : IsConvertCall "c.jsonnet" (some "--") none ["c.jsonnet", "--overrides=--"] :=
    ⟨by decide, by simp, _, _, [["c.jsonnet"], ["--overrides=--"], []], .attached "--", .absent,
      .refl _, rfl⟩
  refine ⟨hs, rfl, hcall, fun h => ?_⟩
  have hdata : readData? evaluateText? [] "\x7b\x7d" = .ok (.object []) :=
    readData?_eq_ok_iff.mpr ⟨evaluateText?_empty, rfl⟩
  have hempty : s.load? "\x7b\x7d" "" = .ok (.object []) :=
    load?_eq_ok_iff.mpr ⟨.object [], [], hdata, rfl, rfl⟩
  have hseparator : s.load? "\x7b\x7d" "--" = .error (.document .illFormed) := by
    have hread : evaluateText? [] "--" = .error .illFormed := rfl
    change load? evaluateText? [] "\x7b\x7d" "--" = _
    rw [load?, hdata, parseOverrides?, if_neg (by decide), readData?, hread]
    rfl
  -- The library fails to evaluate the separator, but the program finds no configuration.
  have hfollows : (convertFile s "c.jsonnet" "" false).Follows s "\x7b\x7d" "" false :=
    follows_convertFile hs rfl false
  have hno := (hfollows.no_nfa _ hempty (by
    rintro ⟨_, _, heq, hfields⟩
    cases heq
    cases hfields)).1
  have hquiet := (h.load_error _ hseparator).1
  rw [Program.run_convert hcall s] at hquiet
  exact absurd (hno.symm.trans hquiet) (by decide)

end Determinize
