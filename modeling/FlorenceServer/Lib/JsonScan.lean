import Mathlib.Tactic

/-!
# Scanning JSON text

What every JSON object or array has in common, whatever it stands for: its
brackets close outside of its strings, and outside of its strings there are
only numbers, punctuation, whitespace and the letters of the three literals.

The scanner keeps the nesting depth and whether it is in a string.  It accepts
more than the grammar does; what it refuses is not JSON.  The main result is
about texts glued together: behind the cut-off start of one object no further
object can complete the first one.
-/

namespace FlorenceServer

section Scanner

/-- Where the scanner stands.  At depth `d` there are `d + 1` open brackets. -/
inductive JsonScan where
  /-- nothing but whitespace so far -/
  | start
  /-- between the tokens of an object or array -/
  | inside (depth : Nat)
  | string (depth : Nat)
  /-- behind a backslash in a string -/
  | escape (depth : Nat)
  /-- the outermost bracket is closed -/
  | closed
  | bad
deriving DecidableEq, Repr

def isJsonSpace (c : Char) : Bool :=
  [' ', '\t', '\n', '\r'].contains c

def isOpeningBracket (c : Char) : Bool :=
  c = '{' || c = '['

def isClosingBracket (c : Char) : Bool :=
  c = '}' || c = ']'

/-- What stands outside of strings, brackets and quotes apart. -/
def isBareJson (c : Char) : Bool :=
  isJsonSpace c || ",:+-.0123456789eEtrufalsn".toList.contains c

/-- What may follow a backslash. -/
def isEscapedJson (c : Char) : Bool :=
  "\"\\/bfnrtu".toList.contains c

namespace JsonScan

def step : JsonScan → Char → JsonScan
  | .start, c =>
      if isJsonSpace c then .start
      else if isOpeningBracket c then .inside 0
      else .bad
  | .inside depth, c =>
      if c = '"' then .string depth
      else if isOpeningBracket c then .inside (depth + 1)
      else if isClosingBracket c then
        match depth with
        | 0 => .closed
        | depth + 1 => .inside depth
      else if isBareJson c then .inside depth
      else .bad
  | .string depth, c =>
      if c = '\\' then .escape depth
      else if c = '"' then .inside depth
      else .string depth
  | .escape depth, c =>
      if isEscapedJson c then .string depth else .bad
  | .closed, c =>
      if isJsonSpace c then .closed else .bad
  | .bad, _ => .bad

def run (s : JsonScan) (text : List Char) : JsonScan :=
  text.foldl step s

@[simp] theorem run_nil (s : JsonScan) : s.run [] = s := rfl

@[simp] theorem run_cons (s : JsonScan) (c : Char) (text : List Char) :
    s.run (c :: text) = (s.step c).run text := rfl

@[simp] theorem run_append (s : JsonScan) (text text' : List Char) :
    s.run (text ++ text') = (s.run text).run text' :=
  List.foldl_append

@[simp] theorem run_bad (text : List Char) : run .bad text = .bad := by
  induction text with
  | nil => rfl
  | cons c text ih => exact ih

/-- The scanner does not go back to the start. -/
theorem step_ne_start
    {s : JsonScan} (h : s ≠ .start) (c : Char) :
    s.step c ≠ .start := by
  cases s with
  | start => exact absurd rfl h
  | inside depth =>
      cases depth <;> simp only [step] <;> split_ifs <;> nofun
  | string depth =>
      simp only [step]
      split_ifs <;> nofun
  | escape depth =>
      simp only [step]
      split_ifs <;> nofun
  | closed =>
      simp only [step]
      split_ifs <;> nofun
  | bad => nofun

theorem run_ne_start
    {s : JsonScan} (h : s ≠ .start) (text : List Char) :
    s.run text ≠ .start := by
  induction text generalizing s with
  | nil => exact h
  | cons c text ih => exact ih (step_ne_start h c)

/-- Behind the closing bracket there is only whitespace. -/
theorem run_closed
    {text : List Char}
    (h : run .closed text = .closed) :
    ∀ c ∈ text, isJsonSpace c = true := by
  induction text with
  | nil => nofun
  | cons c text ih =>
      rw [run_cons, step] at h
      by_cases hc : isJsonSpace c = true
      · rw [if_pos hc] at h
        intro d hd
        rcases List.mem_cons.mp hd with rfl | hd
        · exact hc
        · exact ih h d hd
      · rw [if_neg hc, run_bad] at h
        cases h

/-- The same place, with `depth + 1` more brackets around it. -/
def nest (depth : Nat) : JsonScan → JsonScan
  | .start => .inside depth
  | .inside d => .inside (depth + 1 + d)
  | .string d => .string (depth + 1 + d)
  | .escape d => .escape (depth + 1 + d)
  | .closed => .inside depth
  | .bad => .bad

theorem nest_ne_closed (depth : Nat) (s : JsonScan) :
    s.nest depth ≠ .closed := by
  cases s <;> nofun

theorem isJsonSpace_cases {c : Char} (h : isJsonSpace c = true) :
    c = ' ' ∨ c = '\t' ∨ c = '\n' ∨ c = '\r' := by
  simpa [isJsonSpace] using h

/-- Between tokens whitespace changes nothing. -/
theorem step_inside_space
    {c : Char} (h : isJsonSpace c = true) (depth : Nat) :
    step (.inside depth) c = .inside depth := by
  rcases isJsonSpace_cases h with rfl | rfl | rfl | rfl <;> rfl

theorem step_nest
    {s : JsonScan} {c : Char} (depth : Nat)
    (h : s.step c ≠ .bad) :
    (s.nest depth).step c = (s.step c).nest depth := by
  cases s with
  | start =>
      by_cases hspace : isJsonSpace c = true
      · simp only [step, if_pos hspace, nest]
        exact step_inside_space hspace depth
      · by_cases hopen : isOpeningBracket c = true
        · have hquote : c ≠ '"' := by
            rintro rfl
            simp [isOpeningBracket] at hopen
          simp [step, nest, hspace, hopen, hquote]
        · simp [step, hspace, hopen] at h
  | inside d =>
      cases d with
      | zero =>
          simp only [step, nest] at h ⊢
          split_ifs at h ⊢ <;> rfl
      | succ d =>
          simp only [step, nest] at h ⊢
          split_ifs at h ⊢ <;> rfl
  | string d =>
      simp only [step, nest]
      split_ifs <;> rfl
  | escape d =>
      simp only [step, nest] at h ⊢
      split_ifs at h ⊢
      · rfl
      · exact absurd rfl h
  | closed =>
      by_cases hspace : isJsonSpace c = true
      · simp only [step, if_pos hspace, nest]
        exact step_inside_space hspace depth
      · simp [step, hspace] at h
  | bad => exact absurd rfl h

/-- A text scans the same way within further brackets. -/
theorem run_nest
    {s : JsonScan} {text : List Char} (depth : Nat)
    (h : s.run text ≠ .bad) :
    (s.nest depth).run text = (s.run text).nest depth := by
  induction text generalizing s with
  | nil => rfl
  | cons c text ih =>
      rw [run_cons] at h ⊢
      have hstep : s.step c ≠ .bad := by
        intro hbad
        rw [hbad, run_bad] at h
        exact h rfl
      rw [step_nest depth hstep]
      exact ih h

end JsonScan
end Scanner

section Glued

/-- The scan of a whole text. -/
def jsonScan (text : List Char) : JsonScan :=
  JsonScan.start.run text

/-- The text is an object whose first key starts with this letter. -/
def OpensWithKey (letter : Char) (text : List Char) : Prop :=
  ['{', '"', letter] <+: text

/-- Only whitespace stands in front of the first bracket. -/
theorem jsonScan_eq_start_iff (text : List Char) :
    jsonScan text = .start ↔ ∀ c ∈ text, isJsonSpace c = true := by
  unfold jsonScan
  induction text with
  | nil => simp
  | cons c text ih =>
      rw [JsonScan.run_cons, JsonScan.step, List.forall_mem_cons]
      by_cases hspace : isJsonSpace c = true
      · rw [if_pos hspace, ih]
        exact ⟨fun h => ⟨hspace, h⟩, fun h => h.2⟩
      · rw [if_neg hspace]
        constructor
        · intro h
          exfalso
          refine JsonScan.run_ne_start ?_ text h
          split_ifs <;> nofun
        · intro h
          exact absurd h.1 hspace

/-- A start of a closed text is never refused. -/
theorem jsonScan_prefix_ne_bad
    {part whole : List Char}
    (hwhole : jsonScan whole = .closed)
    (hpart : part <+: whole) :
    jsonScan part ≠ .bad := by
  intro hbad
  obtain ⟨rest, rfl⟩ := hpart
  unfold jsonScan at hwhole hbad
  rw [JsonScan.run_append, hbad, JsonScan.run_bad] at hwhole
  cases hwhole

/-- A text that ends with a bracket is closed by this bracket only. -/
theorem eq_of_prefix_closed
    {part whole : List Char}
    (hwhole : jsonScan whole = .closed)
    (hlast : whole.getLast? = some '}')
    (hpart : part <+: whole)
    (hclosed : jsonScan part = .closed) :
    part = whole := by
  obtain ⟨rest, rfl⟩ := hpart
  unfold jsonScan at hwhole hclosed
  rw [JsonScan.run_append, hclosed] at hwhole
  have hspace := JsonScan.run_closed hwhole
  cases hrest : rest.getLast? with
  | none =>
      rw [List.getLast?_eq_none_iff.mp hrest, List.append_nil]
  | some c =>
      rw [List.getLast?_append, hrest, Option.some_or, Option.some.injEq] at hlast
      subst hlast
      have hbrace := hspace '}' (List.mem_of_getLast? hrest)
      simp [isJsonSpace] at hbrace

/-- Behind a text that has begun, the start of an object completes nothing. -/
theorem run_glued_ne_closed
    {s : JsonScan} {letter : Char} {part whole : List Char}
    (hs : s ≠ .start)
    (hwhole : jsonScan whole = .closed)
    (hkey : OpensWithKey letter whole)
    (hletter : ∀ depth, JsonScan.step (.inside depth) letter = .bad)
    (hpart : part <+: whole)
    (hne : part ≠ []) :
    s.run part ≠ .closed := by
  have hnotBad := jsonScan_prefix_ne_bad hwhole hpart
  obtain ⟨rest, rfl⟩ := hkey
  cases part with
  | nil => exact absurd rfl hne
  | cons brace part =>
      obtain ⟨rfl, hkeyPart⟩ := List.cons_prefix_cons.mp hpart
      cases s with
      | start => exact absurd rfl hs
      | inside depth =>
          have hnest := JsonScan.run_nest (s := .start) depth hnotBad
          intro hclosed
          rw [JsonScan.nest, hclosed] at hnest
          exact JsonScan.nest_ne_closed depth _ hnest.symm
      | string depth =>
          -- the first quote ends the string, and the key stands bare
          cases part with
          | nil => nofun
          | cons quote part =>
              obtain ⟨rfl, hletterPart⟩ := List.cons_prefix_cons.mp hkeyPart
              cases part with
              | nil => nofun
              | cons first part =>
                  obtain ⟨rfl, -⟩ := List.cons_prefix_cons.mp hletterPart
                  have hrun : JsonScan.run (.string depth) ('{' :: '"' :: first :: part) =
                      (JsonScan.step (.inside depth) first).run part := rfl
                  rw [hrun, hletter depth, JsonScan.run_bad]
                  nofun
      | escape depth =>
          have hstep : JsonScan.step (.escape depth) '{' = .bad := rfl
          rw [JsonScan.run_cons, hstep, JsonScan.run_bad]
          nofun
      | closed =>
          have hstep : JsonScan.step .closed '{' = .bad := rfl
          rw [JsonScan.run_cons, hstep, JsonScan.run_bad]
          nofun
      | bad =>
          rw [JsonScan.run_bad]
          nofun

end Glued

end FlorenceServer
