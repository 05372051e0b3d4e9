import Determinize.CommandLine.Parse
import Determinize.Proofs.Collection.Related
import Determinize.Proofs.CommandLine.Plan
import Determinize.Proofs.Value.Hashable

/-!
# Reading planned command lines

When the plan of a command line only binds values that are read and accepted, and no required argument
is missing, the values are bound and nothing is left over. Every key has the value that was given for
it, or the fallback.

## Main definitions

* `Taking` — an argument with the words that it takes and their value.
* `Taking.IsRead` — the words are read as the value, which is bound to the key.

## Main results

* `Signature.exists_parse?` — the bindings of a command.
* `Suite.parse?_eq_ok` — the bindings of a selected command.
-/

namespace Determinize.CommandLine

variable {s : Signature} {a : Argument} {key word : String} {x : Value} {b : Bindings}

/-! ### Values -/

namespace Argument

theorem read?_text (ha : a.reading = .text) (word : String) : a.read? word = .ok (.text word) := by
  simp only [read?, ha, Reading.read?]

theorem mapM_read?_text (ha : a.reading = .text) (words : List String) :
    words.mapM a.read? = .ok (words.map .text) :=
  mapM_eq_ok_map fun word _ => read?_text ha word

theorem valueOf?_rest (harity : a.arity = .rest) (ha : a.reading = .text) (words : List String) :
    a.valueOf? words = .ok (.list (words.map .text)) := by
  simp only [valueOf?, harity, mapM_read?_text ha]
  rfl

/-- The name of a command has to be one of the choices. What follows it does not. -/
theorem valueOf?_command (harity : a.arity = .command) (ha : a.reading = .text)
    (hchoice : a.requireChoice (.text word) = .ok ()) (words : List String) :
    a.valueOf? (word :: words) = .ok (.list ((word :: words).map .text)) := by
  simp only [valueOf?, harity, mapM_read?_text ha]
  change (a.requireChoice (.text word) >>= fun _ => _) = _
  rw [hchoice]
  rfl

/-- A single word is the value if it is one of the choices and no separator. -/
theorem valueOf?_singleton (harity : a.arity = .one ∨ a.arity = .optional)
    (ha : a.reading = .text) (hword : word ≠ separatorText)
    (hchoice : a.requireChoice (.text word) = .ok ()) :
    a.valueOf? [word] = .ok (.text word) := by
  have hchoose : a.readChoice? word = .ok (.text word) := by
    rw [readChoice?, read?_text ha]
    change (a.requireChoice (.text word) >>= fun _ => _) = _
    rw [hchoice]
    rfl
  have herase : [word].erase separatorText = [word] :=
    List.erase_of_not_mem fun h => hword (List.mem_singleton.mp h).symm
  rcases harity with harity | harity <;> simp only [valueOf?, harity, herase, hchoose]

/-- A separator as the only word does not count, and so the value is the list of no words. -/
theorem valueOf?_separator (harity : a.arity = .one) :
    a.valueOf? [separatorText] = .ok (.list []) := by
  simp only [valueOf?, harity, List.erase_cons_head]
  rfl

end Argument

/-! ### Steps -/

/-- An argument with the words that it takes and their value. -/
structure Taking where
  argument : Argument
  words : List String
  value : Value

namespace Taking

/-- The step in which the argument takes the words. -/
def step (t : Taking) : Step := .take t.argument t.words

/-- The words are read as the value, and this is bound to the key of the argument. -/
structure IsRead (t : Taking) : Prop where
  value : t.argument.valueOf? t.words = .ok t.value
  effect : t.argument.effect = .store

end Taking

variable {takings : List Taking}

namespace Bindings

/-- The bindings after values were bound in turn. -/
def storing (b : Bindings) (takings : List Taking) : Bindings :=
  takings.foldl (fun b t => b.insert t.argument.key t.value) b

theorem find?_storing_of_forall_ne (h : ∀ t ∈ takings, t.argument.key ≠ key) :
    (b.storing takings).find? key = b.find? key := by
  induction takings generalizing b with
  | nil => rfl
  | cons t takings ih =>
    rw [List.forall_mem_cons] at h
    rw [storing, List.foldl_cons]
    refine (ih h.2).trans ?_
    rw [OrderedMap.find?_insert, if_neg (by simpa using h.1)]

/-- Of values for different keys, each is found. -/
theorem find?_storing_of_mem (hkeys : (takings.map (·.argument.key)).Nodup) {t : Taking}
    (ht : t ∈ takings) : (b.storing takings).find? t.argument.key = some t.value := by
  induction takings generalizing b with
  | nil => cases ht
  | cons t' takings ih =>
    rw [List.map_cons, List.nodup_cons] at hkeys
    rw [storing, List.foldl_cons]
    rcases List.mem_cons.mp ht with rfl | ht
    · refine (find?_storing_of_forall_ne fun u hu heq => ?_).trans ?_
      · exact hkeys.1 (List.mem_map.mpr ⟨u, hu, heq⟩)
      · rw [OrderedMap.find?_insert, if_pos BEq.rfl]
    · exact ih hkeys.2 ht

/-- Words that are bound as a list can be looked up as texts. -/
theorem texts_eq {words : List String} (h : b.find? key = some (.list (words.map .text))) :
    b.texts key = words := by
  simp only [texts, value, h, Option.getD_some, List.filterMap_map]
  exact List.filterMap_some

theorem text_eq (h : b.find? key = some (.text word)) : b.text key = word := by
  simp only [text, value, h, Option.getD_some]

end Bindings

namespace Signature

theorem perform?_step (p : Progress) {t : Taking} (h : t.IsRead) :
    s.perform? p t.step = .ok
      { bindings := p.bindings.insert t.argument.key t.value
        bound := t.argument.key :: p.bound
        seen := t.argument.identity :: p.seen
        leftOver := p.leftOver } := by
  simp only [Taking.step, perform?, h.value, orExit, h.effect]
  rfl

/-- Steps that read values bind them in turn. -/
theorem foldlM_perform? (p : Progress) (h : ∀ t ∈ takings, t.IsRead) :
    ∃ q, (takings.map Taking.step).foldlM s.perform? p = .ok q ∧
      q.bindings = p.bindings.storing takings ∧ q.leftOver = p.leftOver ∧
      (∀ i ∈ p.seen, i ∈ q.seen) ∧ ∀ t ∈ takings, t.argument.identity ∈ q.seen := by
  induction takings generalizing p with
  | nil => exact ⟨p, rfl, rfl, rfl, fun _ hi => hi, fun _ ht => absurd ht List.not_mem_nil⟩
  | cons t takings ih =>
    rw [List.forall_mem_cons] at h
    rw [List.map_cons, List.foldlM_cons, perform?_step p h.1]
    obtain ⟨q, hq, hbindings, hleftOver, hkept, hseen⟩ := ih _ h.2
    exact ⟨q, hq, hbindings, hleftOver, fun i hi => hkept i (List.mem_cons_of_mem _ hi),
      List.forall_mem_cons.mpr ⟨hkept _ List.mem_cons_self, hseen⟩⟩

/-! ### Fallbacks -/

/-- The fallback of an argument that takes texts changes no value. -/
theorem exists_applyFallback? (p : Progress) (b : Bindings) (ha : a.reading = .text) :
    ∃ b', s.applyFallback? p b a = .ok b' ∧ ∀ k, b'.find? k = b.find? k := by
  unfold applyFallback?
  split
  · exact ⟨b, rfl, fun _ => rfl⟩
  · split
    · rename_i word _
      split
      · rename_i hbound
        simp only [isBoundToFallback, Bool.and_eq_true, decide_eq_true_eq] at hbound
        refine ⟨b.insert a.key (.text word), by rw [Argument.read?_text ha]; rfl, fun k => ?_⟩
        rw [OrderedMap.find?_insert]
        split
        · rename_i hk
          rw [← beq_iff_eq.mp hk, hbound.1]
        · rfl
      · exact ⟨b, rfl, fun _ => rfl⟩
    · exact ⟨b, rfl, fun _ => rfl⟩

theorem exists_foldlM_applyFallback? (p : Progress) (b : Bindings) {arguments : List Argument}
    (h : ∀ a ∈ arguments, a.reading = .text) :
    ∃ b', arguments.foldlM (s.applyFallback? p) b = .ok b' ∧ ∀ k, b'.find? k = b.find? k := by
  induction arguments generalizing b with
  | nil => exact ⟨b, rfl, fun _ => rfl⟩
  | cons a arguments ih =>
    rw [List.forall_mem_cons] at h
    obtain ⟨b', hb', hfind⟩ := exists_applyFallback? (s := s) p b h.1
    obtain ⟨b'', hb'', hfind'⟩ := ih b' h.2
    refine ⟨b'', ?_, fun k => (hfind' k).trans (hfind k)⟩
    rw [List.foldlM_cons, hb']
    exact hb''

/-! ### Commands -/

/-- The bindings of a command whose plan reads values for different keys, with all that is required
among them. Nothing is left over. -/
theorem exists_parse? {texts : List String} (hplan : s.plan? texts = .ok (takings.map Taking.step))
    (hread : ∀ t ∈ takings, t.IsRead) (hkeys : (takings.map (·.argument.key)).Nodup)
    (htext : ∀ a ∈ s.arguments, a.reading = .text)
    (hrequired : ∀ a ∈ s.arguments, a.required = true →
      a.identity ∈ takings.map (·.argument.identity)) :
    ∃ b, s.parse? texts = .ok (b, []) ∧
      (∀ t ∈ takings, b.find? t.argument.key = some t.value) ∧
      ∀ k, (∀ t ∈ takings, t.argument.key ≠ k) → b.find? k = s.initial.bindings.find? k := by
  obtain ⟨p, hp, hbindings, hleftOver, -, hseen⟩ := foldlM_perform? (s := s) s.initial hread
  obtain ⟨b, hb, hfind⟩ := exists_foldlM_applyFallback? (s := s) p p.bindings htext
  have hmissing : s.missing p = [] := by
    have hnone : (s.arguments.filter fun a => a.required && !p.seen.contains a.identity) = [] := by
      rw [List.filter_eq_nil_iff]
      intro a ha h
      rw [Bool.and_eq_true] at h
      obtain ⟨t, ht, hidentity⟩ := List.mem_map.mp (hrequired a ha h.1)
      simp [← hidentity, hseen t ht] at h
    rw [missing, hnone]
    rfl
  refine ⟨b, ?_, fun t ht => ?_, fun k hk => ?_⟩
  · simp only [parse?, hplan, orExit]
    change ((takings.map Taking.step).foldlM s.perform? s.initial >>= fun p => _) = _
    rw [hp]
    change ((s.arguments.foldlM (s.applyFallback? p) p.bindings).mapError s.faultExit >>= fun b =>
      _) = _
    simp only [hb, hmissing, hleftOver]
    rfl
  · rw [hfind, hbindings, Bindings.find?_storing_of_mem hkeys ht]
  · rw [hfind, hbindings, Bindings.find?_storing_of_forall_ne hk]

/-- A command that selects another one by its first word, and requires nothing, binds everything to
its operand. -/
theorem exists_parse?_command {texts : List String}
    (hs : s.arguments.filter (fun a => !a.isOption) = [a])
    (ha : a.arity = .command ∧ a.effect = .store)
    (htext : ∀ a ∈ s.arguments, a.reading = .text ∧ a.required = false)
    (hchoice : a.requireChoice (.text word) = .ok ()) (hword : IsPlain word)
    (h : ∀ t ∈ texts, IsPlain t ∨ IsForeign s t) :
    ∃ b, s.parse? (word :: texts) = .ok (b, []) ∧
      b.find? a.key = some (.list ((word :: texts).map .text)) := by
  have hmem : a ∈ s.arguments := (List.mem_filter.mp (hs ▸ List.mem_singleton_self a)).1
  let taking : Taking := ⟨a, word :: texts, .list ((word :: texts).map .text)⟩
  have hread : taking.IsRead :=
    ⟨Argument.valueOf?_command ha.1 (htext a hmem).1 hchoice texts, ha.2⟩
  have hplan : s.plan? (word :: texts) = .ok ([taking].map Taking.step) :=
    plan?_command hs ha.1 hword h
  obtain ⟨b, hb, hfind, -⟩ := exists_parse? hplan (by simpa using hread) (by simp)
    (fun a ha => (htext a ha).1) fun a ha hrequired => by simp [(htext a ha).2] at hrequired
  exact ⟨b, hb, hfind taking (List.mem_singleton_self _)⟩

end Signature

/-- The bindings of a selected command, if nothing is left over. -/
theorem Suite.parse?_eq_ok {s : Suite} {texts rest : List String} {command : Signature}
    {inner : Bindings} (h : s.signature.parse? texts = .ok (b, []))
    (hselected : b.find? Argument.commandKey = some (.list ((word :: rest).map .text)))
    (hcommand : s.commands.lookup word = some command)
    (hinner : command.parse? rest = .ok (inner, [])) :
    s.parse? texts = .ok (some (word, inner)) := by
  simp only [parse?, h, bind, Except.bind, Bindings.texts_eq hselected, hcommand, hinner]
  rfl

end Determinize.CommandLine
