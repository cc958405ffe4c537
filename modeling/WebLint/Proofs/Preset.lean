import WebLint.Preset
import WebLint.Proofs.Text.Bytes

/-!
# Validating presets

A preset is accepted when each of its entries is good by itself: it stands in the table of
the language of its rule, and has only options this rule takes.  Otherwise it is refused for
the first entry that is not good, and the order of the entries is that of the tables and,
within a table, that of the bytes of the names.

What is proved here:

* `RuleEntry.fits_or_offends`, `admits_or_refuses` — an entry is good or has a first offence;
* `ofTables_eq` — both tables are taken up as one list of entries, which `pairwise_inOrder`
  says is in order;
* `foldlM_of_admits`, `foldlM_of_refuses` — what comes of a list of entries;
* `ReadsEntry.foldl` — what an accepted preset holds for a rule is what is written for it;
* `ofTables_accepts_or_refuses` — all this for the tables of a preset.
-/

namespace WebLint

/-! ## The options of an entry -/

namespace RuleEntry

variable {e : RuleEntry} {r : Rule} {err : PresetError}

/-- Spaces are given only for a rule about indentation, and it has a width. -/
def SpacesFit (e : RuleEntry) (r : Rule) : Prop :=
  ∀ n, e.spaces = some n → (r = .indentation ∨ r = .indent) ∧ 1 ≤ n

/-- Levels of `case` clauses are given only for the indentation of scripts. -/
def SwitchCaseFits (e : RuleEntry) (r : Rule) : Prop :=
  ∀ n, e.switchCase = some n → r = .indent

/-- Delimiters are given only for the rule about them. -/
def QuoteFits (e : RuleEntry) (r : Rule) : Prop :=
  ∀ q, e.quote = some q → r = .stringQuotes

/-- The options of an entry are options its rule takes. -/
structure Fits (e : RuleEntry) (r : Rule) : Prop where
  spaces : e.SpacesFit r
  switchCase : e.SwitchCaseFits r
  quote : e.QuoteFits r

/-- The first offence of the options of an entry, in the order `spaces`, `switch-case`,
`quote`. -/
inductive Offends (e : RuleEntry) (r : Rule) : PresetError → Prop
  | spaces {n : Nat} (given : e.spaces = some n) (other : ¬ (r = .indentation ∨ r = .indent)) :
    Offends e r (.unexpectedOption r .spaces)
  | zero (given : e.spaces = some 0) (rule : r = .indentation ∨ r = .indent) :
    Offends e r (.zeroIndentation r)
  | switchCase {n : Nat} (spaces : e.SpacesFit r) (given : e.switchCase = some n)
      (other : r ≠ .indent) :
    Offends e r (.unexpectedOption r .switchCase)
  | quote {q : Quote} (spaces : e.SpacesFit r) (switchCase : e.SwitchCaseFits r)
      (given : e.quote = some q) (other : r ≠ .stringQuotes) :
    Offends e r (.unexpectedOption r .quote)

theorem spacesFit_or_offends : e.SpacesFit r ∨ ∃ err, e.Offends r err := by
  cases hgiven : e.spaces with
  | none => exact Or.inl fun n h => by cases hgiven.symm.trans h
  | some n =>
    by_cases hr : r = .indentation ∨ r = .indent
    · rcases Nat.eq_zero_or_pos n with rfl | hpos
      · exact Or.inr ⟨_, .zero hgiven hr⟩
      · refine Or.inl fun m h => ⟨hr, ?_⟩
        cases hgiven.symm.trans h
        exact hpos
    · exact Or.inr ⟨_, .spaces hgiven hr⟩

/-- An entry has a first offence, or its options are options its rule takes. -/
theorem fits_or_offends (e : RuleEntry) (r : Rule) : e.Fits r ∨ ∃ err, e.Offends r err := by
  rcases spacesFit_or_offends (e := e) (r := r) with hspaces | hoffends
  · by_cases hswitch : e.SwitchCaseFits r
    · by_cases hquote : e.QuoteFits r
      · exact Or.inl ⟨hspaces, hswitch, hquote⟩
      · simp only [QuoteFits, not_forall, exists_prop] at hquote
        obtain ⟨q, hgiven, hr⟩ := hquote
        exact Or.inr ⟨_, .quote hspaces hswitch hgiven hr⟩
    · simp only [SwitchCaseFits, not_forall, exists_prop] at hswitch
      obtain ⟨n, hgiven, hr⟩ := hswitch
      exact Or.inr ⟨_, .switchCase hspaces hgiven hr⟩
  · exact Or.inr hoffends

end RuleEntry

/-- The options with those an entry gives in place of what they were. -/
def RuleOptions.overwrite (o : RuleOptions) (r : Rule) (e : RuleEntry) : RuleOptions where
  styleSpaces := if r = .indentation then e.spaces.getD o.styleSpaces else o.styleSpaces
  quote := if r = .stringQuotes then e.quote.getD o.quote else o.quote
  scriptSpaces := if r = .indent then e.spaces.getD o.scriptSpaces else o.scriptSpaces
  switchCase := if r = .indent then e.switchCase.getD o.switchCase else o.switchCase

namespace Preset

variable {e : RuleEntry} {r : Rule} {o : RuleOptions} {err : PresetError} {p : Preset}

theorem applySpaces_of_fit (h : e.SpacesFit r) :
    applySpaces r e.spaces o = .ok { o with
      styleSpaces := if r = .indentation then e.spaces.getD o.styleSpaces else o.styleSpaces
      scriptSpaces := if r = .indent then e.spaces.getD o.scriptSpaces else o.scriptSpaces } := by
  cases hgiven : e.spaces with
  | none => simp [applySpaces]
  | some n =>
    obtain ⟨hr, hpos⟩ := h n hgiven
    cases n with
    | zero => omega
    | succ n => rcases hr with rfl | rfl <;> simp [applySpaces]

theorem applySwitchCase_of_fits (h : e.SwitchCaseFits r) :
    applySwitchCase r e.switchCase o = .ok { o with
      switchCase := if r = .indent then e.switchCase.getD o.switchCase else o.switchCase } := by
  cases hgiven : e.switchCase with
  | none => simp [applySwitchCase]
  | some n =>
    obtain rfl := h n hgiven
    simp [applySwitchCase]

theorem applyQuote_of_fits (h : e.QuoteFits r) :
    applyQuote r e.quote o = .ok { o with
      quote := if r = .stringQuotes then e.quote.getD o.quote else o.quote } := by
  cases hgiven : e.quote with
  | none => simp [applyQuote]
  | some q =>
    obtain rfl := h q hgiven
    simp [applyQuote]

/-- Options that fit their rule are taken up. -/
theorem applyOptions_of_fits (h : e.Fits r) : applyOptions r e o = .ok (o.overwrite r e) := by
  rw [applyOptions, applySpaces_of_fit h.spaces]
  show (applySwitchCase r e.switchCase _ >>= _) = _
  rw [applySwitchCase_of_fits h.switchCase]
  exact applyQuote_of_fits h.quote

/-- Options that do not fit are refused for the first offence. -/
theorem applyOptions_of_offends (h : e.Offends r err) : applyOptions r e o = .error err := by
  cases h with
  | spaces given other =>
    have hspaces : applySpaces r e.spaces o = .error (.unexpectedOption r .spaces) := by
      rw [not_or] at other
      simp [applySpaces, given, other]
    rw [applyOptions, hspaces]
    rfl
  | zero given rule =>
    have hspaces : applySpaces r e.spaces o = .error (.zeroIndentation r) := by
      rw [given]
      rcases rule with rfl | rfl <;> rfl
    rw [applyOptions, hspaces]
    rfl
  | switchCase spaces given other =>
    have hswitch : ∀ o, applySwitchCase r e.switchCase o =
        .error (.unexpectedOption r .switchCase) := by
      intro o
      simp [applySwitchCase, given]
    rw [applyOptions, applySpaces_of_fit spaces]
    show (applySwitchCase r e.switchCase _ >>= _) = _
    rw [hswitch]
    rfl
  | quote spaces switchCase given other =>
    have hquote : ∀ o, applyQuote r e.quote o = .error (.unexpectedOption r .quote) := by
      intro o
      simp [applyQuote, given]
    rw [applyOptions, applySpaces_of_fit spaces]
    show (applySwitchCase r e.switchCase _ >>= _) = _
    rw [applySwitchCase_of_fits switchCase]
    exact hquote _

/-! ## One entry of a table -/

variable {table : Language} {entry : String × RuleEntry}

/-- The table of a language may have an entry: it names a rule of this language, and has only
options this rule takes. -/
def Admits (table : Language) (entry : String × RuleEntry) : Prop :=
  ∃ r : Rule, r.name = entry.1 ∧ r.language = table ∧ entry.2.Fits r

/-- Why the table of a language may not have an entry. -/
inductive Refuses (table : Language) (entry : String × RuleEntry) : PresetError → Prop
  | unknownRule (unknown : ∀ r : Rule, r.name ≠ entry.1) :
    Refuses table entry (.unknownRule table entry.1)
  | wrongTable {r : Rule} (known : r.name = entry.1) (other : r.language ≠ table) :
    Refuses table entry (.wrongTable table r)
  | options {r : Rule} {err : PresetError} (known : r.name = entry.1) (same : r.language = table)
      (offends : entry.2.Offends r err) :
    Refuses table entry err

/-- An entry is admitted, or there is a reason to refuse it. -/
theorem admits_or_refuses (table : Language) (entry : String × RuleEntry) :
    Admits table entry ∨ ∃ err, Refuses table entry err := by
  by_cases hknown : ∃ r : Rule, r.name = entry.1
  · obtain ⟨r, hname⟩ := hknown
    by_cases hlanguage : r.language = table
    · rcases entry.2.fits_or_offends r with hfits | ⟨err, hoffends⟩
      · exact Or.inl ⟨r, hname, hlanguage, hfits⟩
      · exact Or.inr ⟨err, .options hname hlanguage hoffends⟩
    · exact Or.inr ⟨_, .wrongTable hname hlanguage⟩
  · exact Or.inr ⟨_, .unknownRule fun r hname => hknown ⟨r, hname⟩⟩

/-- The preset with the level and the options of an entry for one rule. -/
def overwrite (p : Preset) (r : Rule) (e : RuleEntry) : Preset :=
  { p with options := p.options.overwrite r e }.setLevel r e.level

/-- The preset with what an entry gives for the rule it names. -/
def takeUp (p : Preset) (entry : String × RuleEntry) : Preset :=
  (Rule.ofName entry.1).elim p (p.overwrite · entry.2)

theorem addEntry_of_admits (h : Admits table entry) :
    addEntry table p entry = .ok (p.takeUp entry) := by
  obtain ⟨r, hname, hlanguage, hfits⟩ := h
  rw [addEntry, takeUp, Rule.ofName_eq_some_iff.2 hname]
  simp only [hlanguage, ne_eq, not_true_eq_false, if_false, applyOptions_of_fits hfits]
  rfl

theorem addEntry_of_refuses (h : Refuses table entry err) :
    addEntry table p entry = .error err := by
  rw [addEntry]
  cases h with
  | unknownRule unknown =>
    have hnone : Rule.ofName entry.1 = none :=
      Option.eq_none_iff_forall_ne_some.2 fun r h => unknown r (Rule.ofName_eq_some_iff.1 h)
    rw [hnone]
  | wrongTable known other =>
    rw [Rule.ofName_eq_some_iff.2 known]
    exact if_pos other
  | options known same offends =>
    rw [Rule.ofName_eq_some_iff.2 known]
    simp only [same, ne_eq, not_true_eq_false, if_false, applyOptions_of_offends offends]
    rfl

/-! ## All entries, one after the other -/

variable {entries : List (Language × String × RuleEntry)}

/-- Good entries are all taken up. -/
theorem foldlM_of_admits (h : ∀ x ∈ entries, Admits x.1 x.2) (p : Preset) :
    entries.foldlM (fun p x => addEntry x.1 p x.2) p =
      .ok ((entries.map Prod.snd).foldl takeUp p) := by
  induction entries generalizing p with
  | nil => rfl
  | cons x entries ih =>
    rw [List.foldlM_cons, addEntry_of_admits (h x List.mem_cons_self)]
    exact ih (fun y hy => h y (List.mem_cons_of_mem x hy)) (p.takeUp x.2)

/-- A bad entry behind good ones is what the preset is refused for, whatever follows. -/
theorem foldlM_of_refuses {before after : List (Language × String × RuleEntry)}
    {x : Language × String × RuleEntry} (hbefore : ∀ y ∈ before, Admits y.1 y.2)
    (hx : Refuses x.1 x.2 err) (p : Preset) :
    (before ++ x :: after).foldlM (fun p x => addEntry x.1 p x.2) p = .error err := by
  rw [List.foldlM_append, foldlM_of_admits hbefore]
  show (x :: after).foldlM (fun p x => addEntry x.1 p x.2) _ = _
  rw [List.foldlM_cons, addEntry_of_refuses hx]
  rfl

/-- All entries are good, or there is a first one that is not. -/
theorem forall_admits_or_exists_refuses (entries : List (Language × String × RuleEntry)) :
    (∀ x ∈ entries, Admits x.1 x.2) ∨ ∃ before x after err,
      entries = before ++ x :: after ∧ (∀ y ∈ before, Admits y.1 y.2) ∧ Refuses x.1 x.2 err := by
  induction entries with
  | nil => simp
  | cons x entries ih =>
    rcases admits_or_refuses x.1 x.2 with hx | ⟨err, hx⟩
    · rcases ih with hall | ⟨before, y, after, err, rfl, hbefore, hy⟩
      · exact Or.inl (List.forall_mem_cons.2 ⟨hx, hall⟩)
      · exact Or.inr ⟨x :: before, y, after, err, rfl, List.forall_mem_cons.2 ⟨hx, hbefore⟩, hy⟩
    · exact Or.inr ⟨[], x, entries, err, rfl, by simp, hx⟩

/-! ## What an accepted preset holds -/

/-- Something that is read from a preset is decided by the entry of one rule: it is what this
entry gives, and stays as it is where the entry gives nothing. -/
def ReadsEntry {α : Type} (r : Rule) (given : RuleEntry → Option α) (read : Preset → α) : Prop :=
  ∀ p r' e, read (p.overwrite r' e) = if r' = r then (given e).getD (read p) else read p

theorem readsEntry_level (r : Rule) : ReadsEntry r (fun e => some e.level) (·.level r) := by
  intro p r' e
  by_cases h : r' = r
  · simp [overwrite, setLevel, h]
  · simp [overwrite, setLevel, h, Ne.symm h]

theorem readsEntry_styleSpaces :
    ReadsEntry .indentation (·.spaces) (·.options.styleSpaces) := fun _ _ _ => rfl

theorem readsEntry_quote : ReadsEntry .stringQuotes (·.quote) (·.options.quote) := fun _ _ _ => rfl

theorem readsEntry_scriptSpaces :
    ReadsEntry .indent (·.spaces) (·.options.scriptSpaces) := fun _ _ _ => rfl

theorem readsEntry_switchCase :
    ReadsEntry .indent (·.switchCase) (·.options.switchCase) := fun _ _ _ => rfl

theorem ReadsEntry.takeUp {α : Type} {given : RuleEntry → Option α} {read : Preset → α}
    (h : ReadsEntry r given read) (p : Preset) (entry : String × RuleEntry) :
    read (p.takeUp entry) =
      if entry.1 = r.name then (given entry.2).getD (read p) else read p := by
  rw [Preset.takeUp]
  cases hname : Rule.ofName entry.1 with
  | none =>
    have hne : entry.1 ≠ r.name := by
      intro heq
      rw [heq, Rule.ofName_name] at hname
      cases hname
    rw [if_neg hne]
    rfl
  | some r' =>
    have hiff : entry.1 = r.name ↔ r' = r := by
      rw [← Rule.ofName_eq_some_iff.1 hname, Rule.name_inj]
    exact (h p r' entry.2).trans (if_congr hiff.symm rfl rfl)

/-- After a list of entries, each for another rule, there is what the entry of the rule
gives. -/
theorem ReadsEntry.foldl {α : Type} {given : RuleEntry → Option α} {read : Preset → α}
    (h : ReadsEntry r given read) {entries : List (String × RuleEntry)}
    (hnodup : (entries.map Prod.fst).Nodup) (p : Preset) :
    read (entries.foldl Preset.takeUp p) =
      ((entries.lookup r.name).bind given).getD (read p) := by
  induction entries generalizing p with
  | nil => rfl
  | cons entry entries ih =>
    rw [List.map_cons, List.nodup_cons] at hnodup
    rw [List.foldl_cons, ih hnodup.2, h.takeUp]
    obtain ⟨name, e⟩ := entry
    by_cases hname : name = r.name
    · subst hname
      have hrest : entries.lookup r.name = none := by
        rw [List.lookup_eq_none_iff]
        intro entry hentry
        rw [bne_iff_ne]
        intro heq
        exact hnodup.1 (List.mem_map.2 ⟨entry, hentry, heq.symm⟩)
      rw [hrest, List.lookup_cons_self, if_pos rfl]
      rfl
    · rw [if_neg hname, List.lookup_cons, beq_false_of_ne (Ne.symm hname)]

end Preset

/-! ## The two tables -/

namespace Preset

variable {entries : List (String × RuleEntry)}

theorem mem_sortEntries {entry : String × RuleEntry} :
    entry ∈ sortEntries entries ↔ entry ∈ entries :=
  List.mem_mergeSort

/-- The entries of a map, sorted, have increasing names. -/
theorem pairwise_sortEntries (hnodup : (entries.map Prod.fst).Nodup) :
    (sortEntries entries).Pairwise fun a b => Text.bytes a.1 < Text.bytes b.1 := by
  have hsorted : (sortEntries entries).Pairwise fun a b => decide (a.1 ≤ b.1) = true :=
    @List.pairwise_mergeSort _ (fun a b : String × RuleEntry => decide (a.1 ≤ b.1))
      (fun a b c hab hbc => decide_eq_true
        (String.le_trans (of_decide_eq_true hab) (of_decide_eq_true hbc)))
      (fun a b => by simpa using String.le_total a.1 b.1) entries
  have hdistinct : (sortEntries entries).Pairwise fun a b => a.1 ≠ b.1 :=
    List.pairwise_map.1 (((List.mergeSort_perm entries _).map Prod.fst).nodup_iff.2 hnodup)
  refine (hsorted.and hdistinct).imp ?_
  rintro a b ⟨hle, hne⟩
  exact Text.bytes_lt_iff.2 (lt_of_le_of_ne (of_decide_eq_true hle) hne)

end Preset

namespace PresetTables

variable {t : PresetTables} {r : Rule} {e : RuleEntry}

/-- The table of a language. -/
def table (t : PresetTables) : Language → List (String × RuleEntry)
  | .style => t.style
  | .script => t.script

/-- The tables are maps: no name stands twice in one of them. -/
def IsMap (t : PresetTables) : Prop := ∀ language, ((t.table language).map Prod.fst).Nodup

/-- What is written for a rule, in the table of its language. -/
def entry? (t : PresetTables) (r : Rule) : Option RuleEntry := (t.table r.language).lookup r.name

/-- The default options, with the given ones in their place. -/
def options (t : PresetTables) : RuleOptions where
  styleSpaces := ((t.entry? .indentation).bind (·.spaces)).getD ({} : RuleOptions).styleSpaces
  quote := ((t.entry? .stringQuotes).bind (·.quote)).getD ({} : RuleOptions).quote
  scriptSpaces := ((t.entry? .indent).bind (·.spaces)).getD ({} : RuleOptions).scriptSpaces
  switchCase := ((t.entry? .indent).bind (·.switchCase)).getD ({} : RuleOptions).switchCase

/-- One entry comes before another: the style table first, and within a table the name whose
bytes are smaller. -/
def Before (x y : Language × String × RuleEntry) : Prop :=
  (x.1 = .style ∧ y.1 = .script) ∨ (x.1 = y.1 ∧ Text.bytes x.2.1 < Text.bytes y.2.1)

theorem Before.asymm {x y : Language × String × RuleEntry} (h : Before x y) : ¬ Before y x := by
  rintro (⟨hy, hx⟩ | ⟨hsame, hgt⟩)
  · rcases h with ⟨hx', -⟩ | ⟨hsame, -⟩
    · cases hx.symm.trans hx'
    · cases hx.symm.trans (hsame.trans hy)
  · rcases h with ⟨hx, hy⟩ | ⟨-, hlt⟩
    · cases hx.symm.trans (hsame.symm.trans hy)
    · exact List.lt_asymm hlt hgt

/-- All entries in the order they are taken up in, with the languages of their tables. -/
def inOrder (t : PresetTables) : List (Language × String × RuleEntry) :=
  Language.all.flatMap fun language =>
    (Preset.sortEntries (t.table language)).map (Prod.mk language)

theorem mem_inOrder {x : Language × String × RuleEntry} : x ∈ t.inOrder ↔ x.2 ∈ t.table x.1 := by
  obtain ⟨language, entry⟩ := x
  cases language <;> simp [inOrder, Language.all, Preset.mem_sortEntries]

/-- The entries of two maps are taken up in order, each once. -/
theorem pairwise_inOrder (h : t.IsMap) : t.inOrder.Pairwise Before := by
  rw [inOrder, List.pairwise_flatMap]
  constructor
  · intro language _
    rw [List.pairwise_map]
    exact (Preset.pairwise_sortEntries (h language)).imp fun hlt => Or.inr ⟨rfl, hlt⟩
  · have htables : Language.all.Pairwise fun a b => a = .style ∧ b = .script := by
      simp [Language.all]
    refine htables.imp ?_
    rintro _ _ ⟨rfl, rfl⟩ x hx y hy
    obtain ⟨a, -, rfl⟩ := List.mem_map.1 hx
    obtain ⟨b, -, rfl⟩ := List.mem_map.1 hy
    exact Or.inl ⟨rfl, rfl⟩

/-- In good tables no two entries have one name, even in different ones. -/
theorem nodup_names (h : t.IsMap)
    (hadmits : ∀ table, ∀ entry ∈ t.table table, Preset.Admits table entry) :
    ((t.inOrder.map Prod.snd).map Prod.fst).Nodup := by
  rw [List.map_map, List.Nodup, List.pairwise_map]
  refine (pairwise_inOrder h).imp_of_mem ?_
  rintro x y hx hy (⟨hstyle, hscript⟩ | ⟨-, hlt⟩) hname
  · obtain ⟨r, hr, hlanguage, -⟩ := hadmits x.1 x.2 (mem_inOrder.1 hx)
    obtain ⟨r', hr', hlanguage', -⟩ := hadmits y.1 y.2 (mem_inOrder.1 hy)
    have hsame : r = r' := Rule.name_inj.1 (hr.trans (Eq.trans hname hr'.symm))
    rw [hstyle] at hlanguage
    rw [hscript, ← hsame, hlanguage] at hlanguage'
    cases hlanguage'
  · exact List.lt_irrefl _ ((congrArg Text.bytes hname) ▸ hlt)

/-- In a map, what a name is looked up as is what stands with it. -/
theorem lookup_eq_some_iff {entries : List (String × RuleEntry)}
    (hnodup : (entries.map Prod.fst).Nodup) {name : String} :
    entries.lookup name = some e ↔ (name, e) ∈ entries := by
  rw [List.lookup_eq_some_iff]
  constructor
  · rintro ⟨before, after, rfl, -⟩
    exact List.mem_append_right _ List.mem_cons_self
  · intro hmem
    obtain ⟨before, after, rfl⟩ := List.append_of_mem hmem
    refine ⟨before, after, rfl, fun entry hentry => bne_iff_ne.2 fun heq => ?_⟩
    rw [List.map_append, List.nodup_append] at hnodup
    exact hnodup.2.2 entry.1 (List.mem_map_of_mem hentry) name List.mem_cons_self heq.symm

/-- In good tables, what is written for a rule is found among all entries. -/
theorem lookup_inOrder (h : t.IsMap)
    (hadmits : ∀ table, ∀ entry ∈ t.table table, Preset.Admits table entry) (r : Rule) :
    (t.inOrder.map Prod.snd).lookup r.name = t.entry? r := by
  refine Option.ext fun e => ?_
  rw [lookup_eq_some_iff (nodup_names h hadmits), entry?, lookup_eq_some_iff (h r.language),
    List.mem_map]
  constructor
  · rintro ⟨⟨language, entry⟩, hmem, rfl⟩
    have hmem : (r.name, e) ∈ t.table language := mem_inOrder.1 hmem
    obtain ⟨r', hname, rfl, -⟩ := hadmits language _ hmem
    rwa [Rule.name_inj.1 hname] at hmem
  · intro hmem
    exact ⟨(r.language, r.name, e), mem_inOrder.2 hmem, rfl⟩

end PresetTables

namespace Preset

variable {t : PresetTables} {err : PresetError} {p : Preset}

/-- A preset is validated by taking up all its entries in order. -/
theorem ofTables_eq (t : PresetTables) :
    ofTables t = t.inOrder.foldlM (fun p x => addEntry x.1 p x.2) {} := by
  simp only [ofTables, PresetTables.inOrder, Language.all, List.flatMap_cons, List.flatMap_nil,
    List.append_nil, List.foldlM_append, List.foldlM_map]
  rfl

/-- Tables of good entries are accepted. -/
theorem ofTables_of_admits (hadmits : ∀ table, ∀ entry ∈ t.table table, Admits table entry) :
    ofTables t = .ok ((t.inOrder.map Prod.snd).foldl takeUp {}) := by
  rw [ofTables_eq]
  exact foldlM_of_admits (fun x hx => hadmits x.1 x.2 (PresetTables.mem_inOrder.1 hx)) {}

/-- Tables are refused for the first entry that is not good. -/
theorem ofTables_of_refuses (h : t.IsMap) (hmem : entry ∈ t.table table)
    (hentry : Refuses table entry err)
    (hbefore : ∀ table', ∀ entry' ∈ t.table table',
      PresetTables.Before (table', entry') (table, entry) → Admits table' entry') :
    ofTables t = .error err := by
  obtain ⟨before, after, hcut⟩ :=
    List.append_of_mem (PresetTables.mem_inOrder.2 hmem : (table, entry) ∈ t.inOrder)
  have hsorted := PresetTables.pairwise_inOrder h
  rw [hcut, List.pairwise_append] at hsorted
  rw [ofTables_eq, hcut]
  refine foldlM_of_refuses (fun y hy => ?_) hentry {}
  have hy' : y ∈ t.inOrder := hcut ▸ List.mem_append_left _ hy
  exact hbefore y.1 y.2 (PresetTables.mem_inOrder.1 hy') (hsorted.2.2 y hy _ List.mem_cons_self)

/-- Tables that are not all good have a first entry that is not. -/
theorem admits_or_exists_refuses (h : t.IsMap) :
    (∀ table, ∀ entry ∈ t.table table, Admits table entry) ∨
      ∃ table, ∃ entry ∈ t.table table, ∃ err, Refuses table entry err ∧
        ∀ table', ∀ entry' ∈ t.table table',
          PresetTables.Before (table', entry') (table, entry) → Admits table' entry' := by
  rcases forall_admits_or_exists_refuses t.inOrder with
    hall | ⟨before, x, after, err, hcut, hbefore, hx⟩
  · exact Or.inl fun table entry hmem => hall (table, entry) (PresetTables.mem_inOrder.2 hmem)
  · have hmem : x ∈ t.inOrder := hcut ▸ List.mem_append_right _ List.mem_cons_self
    have hsorted := PresetTables.pairwise_inOrder h
    rw [hcut, List.pairwise_append, List.pairwise_cons] at hsorted
    refine Or.inr ⟨x.1, x.2, PresetTables.mem_inOrder.1 hmem, err, hx, ?_⟩
    intro table' entry' hmem' hless
    have hmem' : (table', entry') ∈ before ++ x :: after :=
      hcut ▸ (PresetTables.mem_inOrder.2 hmem' : (table', entry') ∈ t.inOrder)
    rcases List.mem_append.1 hmem' with hy | hy
    · exact hbefore _ hy
    · rcases List.mem_cons.1 hy with heq | hy
      · rw [heq] at hless
        exact absurd hless hless.asymm
      · exact absurd hless (hsorted.2.1.1 _ hy).asymm

/-- What an accepted preset holds for a rule is what is written for it, and what stands in the
empty preset if nothing is. -/
theorem read_foldl_takeUp {α : Type} {given : RuleEntry → Option α} {read : Preset → α}
    (hread : ReadsEntry r given read) (h : t.IsMap)
    (hadmits : ∀ table, ∀ entry ∈ t.table table, Admits table entry) :
    read ((t.inOrder.map Prod.snd).foldl takeUp {}) =
      ((t.entry? r).bind given).getD (read {}) := by
  rw [hread.foldl (PresetTables.nodup_names h hadmits), PresetTables.lookup_inOrder h hadmits]

theorem options_foldl_takeUp (h : t.IsMap)
    (hadmits : ∀ table, ∀ entry ∈ t.table table, Admits table entry) :
    ((t.inOrder.map Prod.snd).foldl takeUp {}).options = t.options := by
  have hstyle := read_foldl_takeUp readsEntry_styleSpaces h hadmits
  have hquote := read_foldl_takeUp readsEntry_quote h hadmits
  have hscript := read_foldl_takeUp readsEntry_scriptSpaces h hadmits
  have hswitch := read_foldl_takeUp readsEntry_switchCase h hadmits
  rw [PresetTables.options, ← hstyle, ← hquote, ← hscript, ← hswitch]

/-- The rules that are checked are those whose level is not off. -/
theorem mem_enabledRules : r ∈ p.enabledRules ↔ p.level r ≠ .off := by
  simp [enabledRules, isEnabled, Rule.mem_all]

/-- The rules that are checked stand in the order the rules are declared in. -/
theorem pairwise_enabledRules (p : Preset) :
    p.enabledRules.Pairwise fun r r' => r.ctorIdx < r'.ctorIdx := by
  have hall : Rule.all.Pairwise fun r r' => r.ctorIdx < r'.ctorIdx := by decide
  exact hall.filter p.isEnabled

/-- **A preset is accepted when each entry is good, and otherwise refused for the first one
that is not.**  An accepted preset has the levels and the options that are written in it and
no others, and the rules that are checked are those that are not off, each once and in the
order they are declared in. -/
theorem ofTables_accepts_or_refuses (t : PresetTables) (h : t.IsMap) :
    ((∃ p, ofTables t = .ok p) ↔ ∀ table, ∀ entry ∈ t.table table, Admits table entry) ∧
      (∀ p, ofTables t = .ok p →
        (∀ r, p.level r = ((t.entry? r).map (·.level)).getD .off) ∧ p.options = t.options ∧
          (∀ r, r ∈ p.enabledRules ↔ p.level r ≠ .off) ∧
          p.enabledRules.Pairwise fun r r' => r.ctorIdx < r'.ctorIdx) ∧
      ∀ err, ofTables t = .error err ↔
        ∃ table, ∃ entry ∈ t.table table, Refuses table entry err ∧
          ∀ table', ∀ entry' ∈ t.table table',
            PresetTables.Before (table', entry') (table, entry) → Admits table' entry' := by
  rcases admits_or_exists_refuses h with hadmits | ⟨table, entry, hmem, err, hentry, hbefore⟩
  · have hok := ofTables_of_admits hadmits
    refine ⟨⟨fun _ => hadmits, fun _ => ⟨_, hok⟩⟩, fun p hp => ?_, fun err => ⟨fun herr => ?_, ?_⟩⟩
    · obtain rfl := Except.ok.inj (hok.symm.trans hp)
      refine ⟨fun r => ?_, options_foldl_takeUp h hadmits, fun r => mem_enabledRules,
        pairwise_enabledRules _⟩
      rw [read_foldl_takeUp (readsEntry_level r) h hadmits, Option.map_eq_bind]
      rfl
    · cases hok.symm.trans herr
    · rintro ⟨table, entry, hmem, hentry, hbefore⟩
      cases hok.symm.trans (ofTables_of_refuses h hmem hentry hbefore)
  · have herror := ofTables_of_refuses h hmem hentry hbefore
    refine ⟨⟨?_, fun hadmits => ?_⟩, fun p hp => ?_, fun err' => ⟨fun herr => ?_, ?_⟩⟩
    · rintro ⟨p, hp⟩
      cases herror.symm.trans hp
    · cases herror.symm.trans (ofTables_of_admits hadmits)
    · cases herror.symm.trans hp
    · obtain rfl := Except.error.inj (herror.symm.trans herr)
      exact ⟨table, entry, hmem, hentry, hbefore⟩
    · rintro ⟨table', entry', hmem', hentry', hbefore'⟩
      exact ofTables_of_refuses h hmem' hentry' hbefore'

/-- Tables with four mistakes: no width, and behind it in the same entry a delimiter where none
belongs, a delimiter in an entry further down, and a rule that does not exist. -/
def mistakenTables : PresetTables where
  style :=
    [("value-no-vendor-prefix", { level := .warn, quote := some .double }),
     ("indentation", { level := .error, spaces := some 0, quote := some .single })]
  script := [("curly", { level := .error })]

/-- Tables with options for three rules, one of them off. -/
def mixedTables : PresetTables where
  style :=
    [("string-quotes", { level := .off, quote := some .double }),
     ("indentation", { level := .warn, spaces := some 3 })]
  script := [("indent", { level := .error, switchCase := some 1 })]

theorem isMap_mistakenTables : mistakenTables.IsMap := by
  intro language
  cases language <;> decide

theorem isMap_mixedTables : mixedTables.IsMap := by
  intro language
  cases language <;> decide

theorem admits_mixedTables :
    ∀ table, ∀ entry ∈ mixedTables.table table, Admits table entry := by
  intro table entry hmem
  cases table with
  | style =>
    rcases List.mem_pair.1 hmem with rfl | rfl
    · exact ⟨.stringQuotes, rfl, rfl, by simp [RuleEntry.SpacesFit],
        by simp [RuleEntry.SwitchCaseFits], fun _ _ => rfl⟩
    · exact ⟨.indentation, rfl, rfl, by simp [RuleEntry.SpacesFit],
        by simp [RuleEntry.SwitchCaseFits], by simp [RuleEntry.QuoteFits]⟩
  | script =>
    obtain rfl := List.mem_singleton.1 hmem
    exact ⟨.indent, rfl, rfl, by simp [RuleEntry.SpacesFit], fun _ _ => rfl,
      by simp [RuleEntry.QuoteFits]⟩

/-- Of several mistakes the first in the order of the names is told; without one, the options
of a rule count even where it is off. -/
theorem ofTables_mistaken_mixed :
    mistakenTables.IsMap ∧ ofTables mistakenTables = .error (.zeroIndentation .indentation) ∧
      mixedTables.IsMap ∧ ∃ p, ofTables mixedTables = .ok p ∧ p.level .stringQuotes = .off ∧
        p.level .indentation = .warn ∧ p.level .semi = .off ∧
        p.options = { styleSpaces := 3, quote := .double, scriptSpaces := 4, switchCase := 1 } ∧
        .indent ∈ p.enabledRules ∧ .stringQuotes ∉ p.enabledRules := by
  refine ⟨isMap_mistakenTables, ?_, isMap_mixedTables, ?_⟩
  · refine ((ofTables_accepts_or_refuses mistakenTables isMap_mistakenTables).2.2 _).2
      ⟨.style, _, List.mem_cons_of_mem _ List.mem_cons_self,
        .options (r := .indentation) rfl rfl (.zero rfl (Or.inl rfl)), ?_⟩
    rintro table entry hmem (⟨-, hscript⟩ | ⟨rfl, hlt⟩)
    · cases hscript
    · have hname : entry.1 < "indentation" := Text.bytes_lt_iff.1 hlt
      rcases List.mem_pair.1 hmem with rfl | rfl
      · exact absurd hname (by decide)
      · exact absurd hname (by decide)
  · obtain ⟨haccepts, hholds, -⟩ := ofTables_accepts_or_refuses mixedTables isMap_mixedTables
    obtain ⟨p, hp⟩ := haccepts.2 admits_mixedTables
    obtain ⟨hlevel, hoptions, hrules, -⟩ := hholds p hp
    have hindent : p.level .indent = .error := hlevel .indent
    have hquotes : p.level .stringQuotes = .off := hlevel .stringQuotes
    refine ⟨p, hp, hquotes, hlevel .indentation, hlevel .semi, hoptions, ?_, ?_⟩
    · rw [hrules, hindent]
      decide
    · rw [hrules, hquotes]
      decide

end Preset
end WebLint
