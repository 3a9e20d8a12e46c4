import Icsneo.Communication

/-! The `do`/`while` loop around `std::getline` with which `CDCACM::Find` looks for the
`PRODUCT=` line of a tty's `uevent` file, over the stream as libstdc++ runs it. -/

namespace Icsneo.CDCACM

/-- A file as a stream reads it: its characters, then either the end of the file or a read
that fails (the device went away while it was read). -/
structure File where
  chars : List Char
  endsInError : Bool

/-- The state of an `std::ifstream`: what is still to be read, how reading ends, and the three
state bits. -/
structure IStream where
  pending : List Char
  readFails : Bool
  eofbit : Bool
  failbit : Bool
  badbit : Bool

/-- `fs.good()`. -/
def IStream.good (fs : IStream) : Bool := !fs.eofbit && !fs.failbit && !fs.badbit

/-- `std::ifstream fs(path)`: a stream over the file when it opens, and a stream with
`failbit` set when it does not. -/
def ifstream : Option File → IStream
  | some f => ⟨f.chars, f.endsInError, false, false, false⟩
  | none => ⟨[], false, false, true, false⟩

/-- The characters before the first `delim`, and what follows it; `none` when the input ran out
before a `delim`. -/
def extractLine (delim : Char) : List Char → List Char × Option (List Char)
  | [] => ([], none)
  | c :: cs =>
    if c = delim then ([], some cs) else ((extractLine delim cs).1.cons c, (extractLine delim cs).2)

/-- `std::getline(fs, str, delim)` as libstdc++ runs it: a failed sentry sets `failbit` and keeps
`str`; input that runs out sets `eofbit` (`badbit` on a failed read), and `failbit` too when
nothing was extracted. -/
def getline (fs : IStream) (str : List Char) (delim : Char) : IStream × List Char :=
  if fs.good then
    match extractLine delim fs.pending with
    | (line, some rest) => ({ fs with pending := rest }, line)
    | (line, none) =>
      ({ fs with
          pending := []
          eofbit := !fs.readFails
          badbit := fs.readFails
          failbit := line.isEmpty }, line)
  else ({ fs with failbit := true }, str)

/-- `s.find(pat)`: the first position where `pat` occurs in `s`, `none` standing for `npos`. -/
def find (s pat : List Char) : Option Nat :=
  if pat.isPrefixOf s then some 0
  else
    match s with
    | [] => none
    | _ :: t => (find t pat).map (· + 1)

/-- `matchString` of line 126. -/
def matchString : List Char := "PRODUCT=".toList

/-- The loop of lines 132–134 given `fuel` iterations: the stream, `productLine` and `pos` when it
exits, `none` while it still runs. -/
def productLineLoop : Nat → IStream → List Char → Option (IStream × List Char × Option Nat)
  | 0, _, _ => none
  | fuel + 1, fs, productLine =>
    let r := getline fs productLine '\n'
    if (find r.2 matchString).isNone && !r.1.eofbit then productLineLoop fuel r.1 r.2
    else some (r.1, r.2, find r.2 matchString)

theorem find_eq_none {pat s : List Char} (h : ¬ pat <:+: s) : find s pat = none := by
  induction s with
  | nil =>
    have hne : pat ≠ [] := fun hp => h (by simp [hp])
    simp [find, hne]
  | cons c s ih =>
    rw [find, if_neg (by simpa using fun hp => h hp.isInfix)]
    simp [ih (fun hi => h (List.infix_cons_iff.mpr (.inr hi)))]

theorem extractLine_fst_starts (d : Char) : ∀ cs : List Char, (extractLine d cs).1 <+: cs
  | [] => List.nil_prefix
  | c :: cs => by
    unfold extractLine
    split
    · exact List.nil_prefix
    · exact List.cons_prefix_cons.mpr ⟨rfl, extractLine_fst_starts d cs⟩

theorem extractLine_rest (d : Char) :
    ∀ {cs rest : List Char}, (extractLine d cs).2 = some rest →
      rest <:+ cs ∧ rest.length < cs.length
  | [], _, h => by simp [extractLine] at h
  | c :: cs, rest, h => by
    unfold extractLine at h
    split at h
    · cases h
      exact ⟨List.suffix_cons c cs, Nat.lt_succ_self _⟩
    · obtain ⟨hs, hl⟩ := extractLine_rest d h
      exact ⟨hs.trans (List.suffix_cons c cs), Nat.lt_succ_of_lt hl⟩

theorem getline_of_not_good {fs : IStream} (h : fs.good = false) (str : List Char) (d : Char) :
    getline fs str d = ({ fs with failbit := true }, str) := by
  simp [getline, h]

/-- What `getline` does on a `good()` stream: a delimiter found leaves the rest pending, and
input that runs out sets the end bits. -/
theorem getline_of_good {fs : IStream} (h : fs.good = true) (str : List Char) (d : Char) :
    (∃ rest, (extractLine d fs.pending).2 = some rest ∧
      getline fs str d = ({ fs with pending := rest }, (extractLine d fs.pending).1)) ∨
    ((extractLine d fs.pending).2 = none ∧
      getline fs str d =
        ({ fs with
            pending := []
            eofbit := !fs.readFails
            badbit := fs.readFails
            failbit := (extractLine d fs.pending).1.isEmpty },
          (extractLine d fs.pending).1)) := by
  simp only [getline, h, if_true]
  rcases extractLine d fs.pending with ⟨line, _ | rest⟩ <;> simp

/-- States the loop never leaves: no `eofbit`, input that can only end in a failed read unless
the stream is already not `good()`, and no `PRODUCT=` in what is left to read or in the line. -/
structure Stuck (fs : IStream) (line : List Char) : Prop where
  no_eof : fs.eofbit = false
  fails : fs.readFails = true ∨ fs.good = false
  pending_clean : ¬ matchString <:+: fs.pending
  line_clean : ¬ matchString <:+: line

theorem Stuck.getline {fs : IStream} {line : List Char} (h : Stuck fs line) :
    Stuck (getline fs line '\n').1 (getline fs line '\n').2 := by
  cases hg : fs.good
  · rw [getline_of_not_good hg]
    exact ⟨h.no_eof, .inr (by simp [IStream.good]), h.pending_clean, h.line_clean⟩
  · have hr : fs.readFails = true := h.fails.resolve_right (by simp [hg])
    have hl : ¬ matchString <:+: (extractLine '\n' fs.pending).1 :=
      fun hi => h.pending_clean (hi.trans (extractLine_fst_starts '\n' fs.pending).isInfix)
    rcases getline_of_good hg line '\n' with ⟨rest, hrest, heq⟩ | ⟨-, heq⟩ <;> rw [heq]
    · exact ⟨h.no_eof, .inl hr,
        fun hi => h.pending_clean (hi.trans (extractLine_rest '\n' hrest).1.isInfix), hl⟩
    · exact ⟨by simp [hr], .inl hr, by simp [matchString], hl⟩

theorem productLineLoop_of_stuck {fs : IStream} {line : List Char} (h : Stuck fs line) :
    ∀ fuel, productLineLoop fuel fs line = none
  | 0 => rfl
  | fuel + 1 => by
    have h' := h.getline
    rw [productLineLoop, if_pos (by simp [find_eq_none h'.line_clean, h'.no_eof])]
    exact productLineLoop_of_stuck h' fuel

/-- The fresh streams the loop never leaves: over a file that did not open, or over one with no
`PRODUCT=` whose reading fails. -/
theorem stuck_of_file {file : Option File} (h : file = none ∨
    ∃ f, file = some f ∧ f.endsInError = true ∧ ¬ matchString <:+: f.chars) :
    Stuck (ifstream file) [] := by
  rcases h with rfl | ⟨f, rfl, herr, hf⟩
  · exact ⟨rfl, .inr rfl, by simp [ifstream, matchString], by simp [matchString]⟩
  · exact ⟨rfl, .inl herr, hf, by simp [matchString]⟩

/-- When the `uevent` file cannot be opened, the loop never ends: `getline` on the failed
stream extracts nothing and never sets `eofbit`. -/
theorem productLineLoop_open_failure (fuel : Nat) :
    productLineLoop fuel (ifstream none) [] = none :=
  productLineLoop_of_stuck (stuck_of_file (.inl rfl)) fuel

/-- On a `good()` stream whose input ends at the end of the file, the loop exits within one
iteration more than there are characters left. -/
theorem productLineLoop_exits {fs : IStream} (hg : fs.good = true) (hr : fs.readFails = false)
    {fuel : Nat} (hfuel : fs.pending.length < fuel) (line : List Char) :
    (productLineLoop fuel fs line).isSome := by
  induction fuel generalizing fs line with
  | zero => omega
  | succ fuel ih =>
    rw [productLineLoop]
    split
    · rename_i hcont
      rcases getline_of_good hg line '\n' with ⟨rest, hrest, heq⟩ | ⟨-, heq⟩ <;>
        rw [heq] at hcont ⊢
      · have hl := (extractLine_rest '\n' hrest).2
        exact @ih { fs with pending := rest } hg hr (show rest.length < fuel by omega) _
      · simp [hr] at hcont
    · rfl

/-- Every file that opens and reads to its end makes the loop exit within its length plus
one iterations. -/
theorem productLineLoop_exits_of_file (f : File) (hf : f.endsInError = false)
    (line : List Char) : (productLineLoop (f.chars.length + 1) (ifstream (some f)) line).isSome :=
  productLineLoop_exits (show (ifstream (some f)).good = true from rfl) hf (Nat.lt_succ_self _) line

theorem productLineLoop_exits_of_file_product :
    (⟨"PRODUCT=93c/1101/100\n".toList, false⟩ : File).endsInError = false ∧
      (productLineLoop ((⟨"PRODUCT=93c/1101/100\n".toList, false⟩ : File).chars.length + 1)
        (ifstream (some ⟨"PRODUCT=93c/1101/100\n".toList, false⟩)) []).isSome :=
  ⟨rfl, productLineLoop_exits_of_file _ rfl _⟩

/-! What the loop finds: the first line of the file with `PRODUCT=` in it. -/

/-- The line the search is after among `lines` (each ended by a newline) and the unterminated
`last` piece: the first line that contains `PRODUCT=` anywhere, or `last` when none does. -/
def firstProductLine (lines : List (List Char)) (last : List Char) : List Char :=
  (lines.find? fun l => (find l matchString).isSome).getD last

theorem extractLine_append_newline {l : List Char} (hl : '\n' ∉ l) (rest : List Char) :
    extractLine '\n' (l ++ '\n' :: rest) = (l, some rest) := by
  induction l with
  | nil => simp [extractLine]
  | cons c l ih =>
    have hc : c ≠ '\n' := fun h => hl (h ▸ List.mem_cons_self c l)
    simp [extractLine, hc, ih fun h => hl (List.mem_cons_of_mem c h)]

theorem extractLine_of_not_mem {l : List Char} (hl : '\n' ∉ l) : extractLine '\n' l = (l, none) := by
  induction l with
  | nil => rfl
  | cons c l ih =>
    have hc : c ≠ '\n' := fun h => hl (h ▸ List.mem_cons_self c l)
    simp [extractLine, hc, ih fun h => hl (List.mem_cons_of_mem c h)]

/-- Over a `good()` stream holding newline-terminated `lines` and then `last`, up to the end of
the file, the loop ends on `firstProductLine`, with `pos` where `PRODUCT=` occurs in it, once it
has more iterations than there are lines. -/
theorem productLineLoop_lines {last : List Char} (hlast : '\n' ∉ last) (lines : List (List Char)) :
    ∀ {fuel : Nat} {fs : IStream} (line : List Char),
      fs.good = true → fs.readFails = false → (∀ l ∈ lines, '\n' ∉ l) →
      fs.pending = (lines.map (· ++ ['\n'])).flatten ++ last → lines.length < fuel →
      (productLineLoop fuel fs line).map (·.2) =
        some (firstProductLine lines last, find (firstProductLine lines last) matchString) := by
  induction lines with
  | nil =>
    rintro (_ | fuel) fs line hg hr - hp hfuel
    · exact absurd hfuel (Nat.lt_irrefl 0)
    · simp [productLineLoop, getline, hg, hp, extractLine_of_not_mem hlast, hr, firstProductLine]
  | cons l ls ih =>
    rintro (_ | fuel) fs line hg hr hl hp hfuel
    · exact absurd hfuel (Nat.not_lt_zero _)
    have hl₀ : '\n' ∉ l := hl l (List.mem_cons_self l ls)
    have hfs : fs.eofbit = false := by
      simp only [IStream.good, Bool.and_eq_true, Bool.not_eq_true'] at hg
      exact hg.1.1
    have hget : getline fs line '\n' =
        ({ fs with pending := (ls.map (· ++ ['\n'])).flatten ++ last }, l) := by
      simp [getline, hg, hp, extractLine_append_newline hl₀]
    rw [productLineLoop, hget]
    cases hf : find l matchString with
    | none =>
      have hskip : firstProductLine (l :: ls) last = firstProductLine ls last := by
        simp [firstProductLine, List.find?_cons, hf]
      rw [if_pos (by simp only [hf, Option.isNone_none, hfs, Bool.not_false, Bool.and_self]),
        hskip]
      exact ih l hg hr (fun l' h => hl l' (List.mem_cons_of_mem l h)) rfl
        (Nat.lt_of_succ_lt_succ hfuel)
    | some p => simp [hf, firstProductLine, List.find?_cons]

/-- The `uevent` loop is a first-match search: on a file that reads to its end it stops on the
first line holding `PRODUCT=` anywhere, or on the unterminated last piece. -/
theorem productLineLoop_first_match (lines : List (List Char)) (last : List Char)
    (hl : ∀ l ∈ lines, '\n' ∉ l) (hlast : '\n' ∉ last) {fuel : Nat} (hfuel : lines.length < fuel) :
    (productLineLoop fuel
        (ifstream (some ⟨(lines.map (· ++ ['\n'])).flatten ++ last, false⟩)) []).map (·.2) =
      some (firstProductLine lines last, find (firstProductLine lines last) matchString) :=
  productLineLoop_lines hlast lines [] rfl rfl hl rfl hfuel

/-- A `uevent` file as the kernel writes it for an interface, with a final newline. -/
theorem productLineLoop_first_match_uevent :
    let lines := ["DEVTYPE=usb_interface".toList, "PRODUCT=93c/1101/100".toList]
    (∀ l ∈ lines, '\n' ∉ l) ∧ '\n' ∉ ([] : List Char) ∧ lines.length < 3 ∧
      (productLineLoop 3 (ifstream (some ⟨(lines.map (· ++ ['\n'])).flatten ++ [], false⟩))
          []).map (·.2) =
        some (firstProductLine lines [], find (firstProductLine lines []) matchString) := by
  intro lines
  have hl : ∀ l ∈ lines, '\n' ∉ l := by decide
  have hlast : '\n' ∉ ([] : List Char) := List.not_mem_nil _
  exact ⟨hl, hlast, by decide, productLineLoop_first_match lines [] hl hlast (by decide)⟩

end Icsneo.CDCACM
