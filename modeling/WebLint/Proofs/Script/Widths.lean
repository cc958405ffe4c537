import WebLint.Proofs.Fixing.Layout
import WebLint.Proofs.Fixing.Moves
import WebLint.Proofs.Script.Repairs

/-!
# The fixes of the lines of a script

Each line of a script that is checked has an expected indentation.  It alone
decides whether the line is repaired, and how.

What is proved here:

* `filterMap_fix_checkLines` — the fixes of a script are those of its lines, read
  off their expected indentations;
* `indents_of_mem_lineFixes`, `pairwise_lineFixes` — each gives one line another
  indentation, and they stand in the order of the lines.
-/

namespace WebLint
namespace ScriptIndentation

/-- The fix of a line with an expected indentation. -/
def lineFix (place : Nat × Text) (width : Nat) : Option Fix :=
  if Indent.isFitting (Indent.ofLine place.2) width then none
  else
    some (.replace ⟨place.1, place.1 + (Indent.ofLine place.2).byteLength⟩ (Indent.spaces width))

/-- The fixes of some lines with their expected indentations. -/
def lineFixes : List (Nat × Text) → List (Option Nat) → List Fix
  | place :: places, width :: widths =>
    (width.bind (lineFix place)).toList ++ lineFixes places widths
  | _, _ => []

/-- The fixes of the indentation of a script. -/
def fixes (d : Document) (o : RuleOptions) (root : Node) : List Fix :=
  lineFixes d.text.placedLines (expectedWidths d o root)

section

variable {d : Document} {o : RuleOptions} {root : Node} {lines : List Text} {row : Nat}
  {expected : Expected} {places : List (Nat × Text)}

/-- Behind the indentation of a line. -/
theorem drop_length_ofLine (line : Text) :
    line.drop (Indent.ofLine line).length = line.dropWhile Indent.isBlank := by
  have h : (Indent.ofLine line ++ line.dropWhile Indent.isBlank).drop (Indent.ofLine line).length =
      line.dropWhile Indent.isBlank := List.drop_left
  rwa [Text.ofLine_append_dropWhile] at h

/-- A line that is checked has an expected indentation, and the other way round. -/
theorem map_fst_checkLine {lineStart : Nat} {line : Text} :
    (checkLine d o root lines expected lineStart line).map (·.1) =
      lineWidth d o root lines expected lineStart line := by
  unfold checkLine lineWidth
  simp only [drop_length_ofLine]
  split
  · rfl
  · rw [Option.map_bind]
    congr 1
    funext token
    simp [Function.comp_def]

theorem length_widths : (widths d o root lines row expected places).length = places.length := by
  induction places generalizing row expected with
  | nil => rfl
  | cons place places ih =>
    rw [widths]
    split
    · rw [List.length_cons, ih, List.length_cons]
    · rw [List.length_cons, ih, List.length_cons]

/-- The fixes of what is found in some lines. -/
theorem filterMap_fix_checkLines :
    (checkLines d o root lines row expected places).filterMap (·.fix) =
      lineFixes places (widths d o root lines row expected places) := by
  induction places generalizing row expected with
  | nil => rfl
  | cons place places ih =>
    rw [checkLines, widths]
    rw [← map_fst_checkLine]
    cases hline : checkLine d o root lines expected place.1 place.2 with
    | none => exact ih
    | some checked =>
      obtain ⟨width, found⟩ := checked
      obtain ⟨-, token, rfl⟩ := checkLine_eq_some hline
      simp only [Option.map_some]
      rw [List.filterMap_append, ih, lineFixes]
      congr 1
      rw [Option.bind_some, lineFix]
      split
      · rfl
      · rfl

/-- The fixes of what is found in a script. -/
theorem filterMap_fix_violations :
    (violations d o root).filterMap (·.fix) = fixes d o root :=
  filterMap_fix_checkLines

end

/-! ## Lines in order -/

section

variable {places : List (Nat × Text)} {widths : List (Option Nat)} {f : Fix}

/-- A line that has a fix gets its expected indentation. -/
theorem exists_of_bind_lineFix {place : Nat × Text} {width : Option Nat}
    (h : width.bind (lineFix place) = some f) : ∃ w, width = some w ∧
      f = .replace ⟨place.1, place.1 + (Indent.ofLine place.2).byteLength⟩ (Indent.spaces w) := by
  cases width with
  | none => cases h
  | some w =>
    rw [Option.bind_some, lineFix] at h
    split at h
    · cases h
    · exact ⟨w, rfl, (Option.some.inj h).symm⟩

theorem exists_of_mem_lineFixes (hf : f ∈ lineFixes places widths) :
    ∃ place ∈ places, ∃ width, f =
      .replace ⟨place.1, place.1 + (Indent.ofLine place.2).byteLength⟩ (Indent.spaces width) := by
  induction places generalizing widths with
  | nil => cases hf
  | cons place places ih =>
    cases widths with
    | nil => cases hf
    | cons width widths =>
      rw [lineFixes, List.mem_append] at hf
      rcases hf with hf | hf
      · obtain ⟨w, -, hw⟩ := exists_of_bind_lineFix (Option.mem_toList.1 hf)
        exact ⟨place, List.mem_cons_self, w, hw⟩
      · obtain ⟨other, hother, w, hw⟩ := ih hf
        exact ⟨other, List.mem_cons_of_mem place hother, w, hw⟩

/-- Each fix gives a line another indentation. -/
theorem indents_of_mem_lineFixes {t : Text} (hf : f ∈ lineFixes t.placedLines widths) :
    f.Indents t := by
  obtain ⟨place, hplace, w, rfl⟩ := exists_of_mem_lineFixes hf
  exact ⟨Text.isLead_of_mem_placedLines hplace, w, rfl⟩

/-- The fixes stand in the order of the lines. -/
theorem pairwise_lineFixes (widths : List (Option Nat))
    (h : places.Pairwise fun p q => p.1 + p.2.byteLength < q.1) :
    (lineFixes places widths).Pairwise fun f g => f.stop < g.start := by
  induction places generalizing widths with
  | nil => exact .nil
  | cons place places ih =>
    cases widths with
    | nil => exact .nil
    | cons width widths =>
      obtain ⟨hplace, hrest⟩ := List.pairwise_cons.1 h
      rw [lineFixes, List.pairwise_append]
      refine ⟨?_, ih widths hrest, ?_⟩
      · cases width.bind (lineFix place) with
        | none => exact .nil
        | some f => exact List.pairwise_singleton _ f
      · intro f hf g hg
        have hf : f ∈ lineFixes [place] [width] := by simpa [lineFixes] using hf
        obtain ⟨own, hown, _, rfl⟩ := exists_of_mem_lineFixes hf
        obtain ⟨other, hother, _, rfl⟩ := exists_of_mem_lineFixes hg
        rw [List.mem_singleton] at hown
        have hlt := hplace other hother
        have hle := Text.byteLength_ofLine_le place.2
        change own.1 + (Indent.ofLine own.2).byteLength < other.1
        rw [hown]
        omega

end

/-! ## The lines of the new text -/

/-- A line that is given its expected indentation, if it has one. -/
def relay (line : Text) : Option Nat → Text
  | none => line
  | some width => Indent.spaces width ++ line.dropWhile Indent.isBlank

section

variable {line : Text}

theorem all_isBlank_spaces (width : Nat) : (Indent.spaces width).all Indent.isBlank = true :=
  List.all_eq_true.2 fun c hc => by rw [List.eq_of_mem_replicate hc]; rfl

/-- A line in its expected indentation. -/
theorem ofLine_relay (line : Text) (width : Nat) :
    Indent.ofLine (relay line (some width)) = Indent.spaces width ∧
      (relay line (some width)).dropWhile Indent.isBlank = line.dropWhile Indent.isBlank := by
  refine Text.ofLine_append (all_isBlank_spaces width) ?_
  have hend : Text.IsLineEnd [] := fun c hc => by cases hc
  simpa using Text.isBlank_head_dropWhile line hend

theorem dropWhile_relay (line : Text) (width : Option Nat) :
    (relay line width).dropWhile Indent.isBlank = line.dropWhile Indent.isBlank := by
  cases width with
  | none => rfl
  | some width => exact (ofLine_relay line width).2

/-- Without a fix a line has its expected indentation already. -/
theorem relay_of_lineFix {start : Nat} {width : Option Nat}
    (h : width.bind (lineFix (start, line)) = none) : relay line width = line := by
  cases width with
  | none => rfl
  | some width =>
    rw [Option.bind_some, lineFix] at h
    split at h
    · rename_i hfits
      rw [relay, ← Indent.eq_spaces_of_isFitting (all_isBlank_ofLine line) hfits,
        Text.ofLine_append_dropWhile]
    · cases h

theorem not_mem_relay (h : '\n' ∉ line) (width : Option Nat) : '\n' ∉ relay line width := by
  cases width with
  | none => exact h
  | some width =>
    rw [relay, List.mem_append, not_or]
    exact ⟨Text.not_mem_spaces width, fun hmem => h ((List.dropWhile_suffix _).subset hmem)⟩

end

/-- Lines with their expected indentations. -/
abbrev relayAll (lines : List Text) (widths : List (Option Nat)) : List Text :=
  List.zipWith relay lines widths

section

variable {t : Text} {lines : List Text} {widths : List (Option Nat)} {start cursor : Nat}

theorem start_le_of_mem_lineFixes {f : Fix}
    (hf : f ∈ lineFixes (Text.placeLines start lines) widths) : start ≤ f.start := by
  obtain ⟨place, hplace, _, rfl⟩ := exists_of_mem_lineFixes hf
  obtain ⟨as, bs, -, hstart⟩ := Text.exists_of_mem_placeLines hplace
  change start ≤ place.1
  omega

/-- From the start of a line on, the fixes of the lines give them their expected
indentations. -/
theorem refill_lineFixes (hne : lines ≠ []) (hlength : widths.length = lines.length)
    (hstart : t.isBoundary start = true) (hlines : t.dropBytes start = Text.join lines) :
    Fixing.refill t start ((lineFixes (Text.placeLines start lines) widths).map Fix.filling) =
      Text.join (relayAll lines widths) := by
  induction lines generalizing widths start with
  | nil => exact absurd rfl hne
  | cons line lines ih =>
    cases widths with
    | nil => cases hlength
    | cons width widths =>
      -- what is left of the line behind some of it stays
      have htail : ∀ indent rest, line = indent ++ rest →
          Fixing.refill t (start + indent.byteLength)
            ((lineFixes (Text.placeLines (start + line.byteLength + 1) lines) widths).map
              Fix.filling) = Text.join (rest :: relayAll lines widths) := by
        rintro indent rest rfl
        cases lines with
        | nil =>
          rw [Text.join_singleton] at hlines
          rw [relayAll, List.zipWith_nil_left, Text.join_singleton]
          exact (Text.cut_append hstart hlines).2.2
        | cons next lines =>
          have hnext : next :: lines ≠ [] := List.cons_ne_nil next lines
          have hcut : t.dropBytes start =
              indent ++ ((rest ++ ['\n']) ++ Text.join (next :: lines)) := by
            rw [hlines, Text.join_cons_of_ne_nil hnext]
            simp
          obtain ⟨hinner, -, hrest⟩ := Text.cut_append hstart hcut
          obtain ⟨hboundary, hpiece, hbehind⟩ := Text.cut_append hinner hrest
          have hend : start + (indent ++ rest).byteLength + 1 =
              start + indent.byteLength + (rest ++ ['\n']).byteLength := by
            rw [Text.byteLength_append, Text.byteLength_append, Text.byteLength_newline,
              Text.byteLength_nil]
            omega
          have hrelaid : relayAll (next :: lines) widths ≠ [] := by
            cases widths with
            | nil => cases hlength
            | cons width widths => exact List.cons_ne_nil _ _
          rw [hend, Fixing.refill_of_le t (Nat.le_add_right _ (rest ++ ['\n']).byteLength), hpiece,
            ih hnext (Nat.succ.inj hlength) hboundary hbehind, Text.join_cons_of_ne_nil hrelaid]
          · simp
          · intro p hp
            obtain ⟨f, hf, rfl⟩ := List.mem_map.1 hp
            exact start_le_of_mem_lineFixes hf
      rw [Text.placeLines, lineFixes]
      cases hfix : width.bind (lineFix (start, line)) with
      | none =>
        rw [Option.toList_none, List.nil_append, relayAll, List.zipWith_cons_cons,
          relay_of_lineFix hfix]
        exact htail [] line rfl
      | some f =>
        obtain ⟨w, rfl, rfl⟩ := exists_of_bind_lineFix hfix
        rw [Option.toList_some, List.singleton_append, List.map_cons, relayAll,
          List.zipWith_cons_cons, relay, Text.join_append_cons,
          ← htail (Indent.ofLine line) _ (Text.ofLine_append_dropWhile line).symm]
        change t.between start start ++ _ ++ _ = _
        rw [Text.between_eq_nil t (Nat.le_refl start)]
        rfl

/-- The fixes of the lines of a text are in order and do not meet. -/
theorem lineFixes_inOrder (t : Text) (widths : List (Option Nat)) :
    (∀ f ∈ lineFixes t.placedLines widths, Fixing.isValid t f = true) ∧
      (lineFixes t.placedLines widths).Pairwise Fix.Apart ∧
      Fixing.sort (lineFixes t.placedLines widths) = lineFixes t.placedLines widths := by
  have hfollow := pairwise_lineFixes widths (Text.pairwise_placeLines 0 t.lines)
  have hindents : ∀ f ∈ lineFixes t.placedLines widths, f.Indents t := fun f hf =>
    indents_of_mem_lineFixes hf
  refine ⟨fun f hf => (hindents f hf).isValid, hfollow.imp fun h => Or.inl (Nat.le_of_lt h),
    Fixing.sort_eq_self (hfollow.imp_of_mem fun {f g} hf _ hfg => ?_)⟩
  have hle := (hindents f hf).1.le
  exact Fixing.le_iff.2 (Or.inl (by omega))

theorem exists_of_mem_relayAll {line : Text} (h : line ∈ relayAll lines widths) :
    ∃ l ∈ lines, ∃ width, line = relay l width := by
  induction lines generalizing widths with
  | nil => cases h
  | cons l lines ih =>
    cases widths with
    | nil => cases h
    | cons width widths =>
      rcases List.mem_cons.1 h with rfl | h
      · exact ⟨l, List.mem_cons_self, width, rfl⟩
      · obtain ⟨k, hk, hline⟩ := ih h
        exact ⟨k, List.mem_cons_of_mem l hk, hline⟩

/-- The fixes of the lines of a text give them their expected indentations. -/
theorem lines_apply_lineFixes (hlength : widths.length = t.lines.length) :
    (Fixing.apply (lineFixes t.placedLines widths) t).text.lines = relayAll t.lines widths := by
  obtain ⟨hvalid, hapart, hsort⟩ := lineFixes_inOrder t widths
  have hne := Text.lines_ne_nil t
  have hrefill := refill_lineFixes hne hlength (Text.isBoundary_zero t)
    (by rw [Text.dropBytes_zero, Text.join_lines])
  rw [Fixing.apply_of_apart hvalid hapart, hsort]
  change (Fixing.refill t 0 _).lines = _
  rw [Text.placedLines, hrefill]
  refine Text.lines_join (fun line hline => ?_) ?_
  · obtain ⟨l, hl, width, rfl⟩ := exists_of_mem_relayAll hline
    exact not_mem_relay (Text.not_mem_of_mem_lines hl) width
  · rw [relayAll, ne_eq, List.zipWith_eq_nil_iff, ← List.length_eq_zero_iff (l := widths), hlength,
      List.length_eq_zero_iff, or_self]
    exact hne

/-- The bytes of a line in its expected indentation. -/
theorem byteLength_relay (line : Text) (width : Nat) :
    (Indent.ofLine line).byteLength + (relay line (some width)).byteLength =
      (Indent.spaces width).byteLength + line.byteLength := by
  have h := congrArg Text.byteLength (Text.ofLine_append_dropWhile line)
  rw [Text.byteLength_append] at h
  rw [relay, Text.byteLength_append]
  omega

/-- Where the indentation of a line ends in the new text, counted from where the lines
start. -/
theorem moved_lineFixes {as bs : List Text} {us vs : List (Option Nat)} {line : Text}
    {width : Option Nat} {p : Nat} (hlength : us.length = as.length) (hcursor : cursor ≤ start)
    (hp : p = start + Text.extent as + (Indent.ofLine line).byteLength) :
    Fixing.moved (fun f => decide (f.stop ≤ p)) cursor p
        (lineFixes (Text.placeLines start (as ++ line :: bs)) (us ++ width :: vs)) =
      start - cursor +
        (Text.extent (relayAll as us) + (Indent.ofLine (relay line width)).byteLength) := by
  induction as generalizing us start cursor with
  | nil =>
    obtain rfl := List.length_eq_zero_iff.1 hlength
    rw [Text.extent_nil] at hp
    have hlater : ∀ f ∈ lineFixes (Text.placeLines (start + line.byteLength + 1) bs) vs,
        decide (f.stop ≤ p) = false := by
      intro f hf
      have hstart := start_le_of_mem_lineFixes hf
      obtain ⟨place, -, w, rfl⟩ := exists_of_mem_lineFixes hf
      have hle := Text.byteLength_ofLine_le line
      change start + line.byteLength + 1 ≤ place.1 at hstart
      change decide (place.1 + _ ≤ p) = false
      rw [decide_eq_false_iff_not]
      omega
    rw [List.nil_append, List.nil_append, Text.placeLines, lineFixes, relayAll,
      List.zipWith_nil_left, Text.extent_nil]
    cases hfix : width.bind (lineFix (start, line)) with
    | none =>
      rw [Option.toList_none, List.nil_append, Fixing.moved_of_not_passed hlater,
        relay_of_lineFix hfix]
      omega
    | some f =>
      obtain ⟨w, rfl, rfl⟩ := exists_of_bind_lineFix hfix
      rw [Option.toList_some, List.singleton_append, Fixing.moved,
        if_pos (decide_eq_true (by simp only [Fix.replace]; omega)),
        Fixing.moved_of_not_passed hlater, (ofLine_relay line w).1]
      simp only [Fix.replace]
      omega
  | cons a as ih =>
    cases us with
    | nil => cases hlength
    | cons u us =>
      have hrest : ∀ {c : Nat}, c ≤ start + a.byteLength + 1 → _ := fun {c} hc =>
        @ih (start + a.byteLength + 1) c us (Nat.succ.inj hlength) hc
          (by rw [hp, Text.extent_cons]; omega)
      have hrelay : relayAll (a :: as) (u :: us) = relay a u :: relayAll as us := rfl
      rw [List.cons_append, List.cons_append, Text.placeLines, lineFixes, hrelay,
        Text.extent_cons]
      cases hfix : u.bind (lineFix (start, a)) with
      | none =>
        rw [Option.toList_none, List.nil_append, hrest (by omega), relay_of_lineFix hfix]
        omega
      | some f =>
        obtain ⟨w, rfl, rfl⟩ := exists_of_bind_lineFix hfix
        have hle := Text.byteLength_ofLine_le a
        have hbytes := byteLength_relay a w
        rw [Text.extent_cons] at hp
        rw [Option.toList_some, List.singleton_append, Fixing.moved,
          if_pos (decide_eq_true (by simp only [Fix.replace]; omega))]
        simp only [Fix.replace]
        rw [hrest (by omega)]
        omega

/-- Where the indentation of a line ends in the new text. -/
theorem moveStart_lineFixes {as bs : List Text} {us vs : List (Option Nat)} {line : Text}
    {width : Option Nat} (hlines : t.lines = as ++ line :: bs) (hlength : us.length = as.length) :
    Fixing.moveStart (lineFixes t.placedLines (us ++ width :: vs))
        (Text.extent as + (Indent.ofLine line).byteLength) =
      Text.extent (relayAll as us) + (Indent.ofLine (relay line width)).byteLength := by
  rw [Fixing.moveStart, (lineFixes_inOrder _ _).2.2, Text.placedLines, hlines,
    moved_lineFixes hlength (Nat.le_refl 0) (by rw [Nat.zero_add])]
  omega

end

end ScriptIndentation
end WebLint
