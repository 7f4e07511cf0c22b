import Pagewright.Proofs.Memo.Lookup
import Pagewright.Proofs.Number.Sign
import Pagewright.Proofs.Text.Scan
import Pagewright.Settings.Check
import Pagewright.Settings.Load

/-! # Settings of a command line

The settings of a project are those of a file, or the usual ones, with what a command line sets over
them.  Everything that comes from the file has been checked (`admissible_of_loadSettings`), while what
the command line sets is taken over as it is.  `buildSettings_eq_ok` says when there are settings, which
ones, and that they are within the bounds exactly if the depth that the command line sets is.

Main definition: `fileSettings`. -/

/-! ## Settings that the checks let through

The checks of the fields bound the depth of layouts and partials, the room and the lifetime of the memo,
and the delimiters (`Settings.Admissible`).  A value that a check gives back is either one that it let
through or the one that holds where nothing is set (`field_induction`), so the settings that come out of
a mapping keep all the bounds (`admissible_of_settings`).

Main definitions: `Delimiters.Admissible`, `MemoSettings.Admissible`, `Settings.Admissible`. -/

namespace Pagewright

open Text

/-- Delimiters of output expressions that can be told apart and from the marks of tags and comments. -/
structure Delimiters.Admissible (ds : Delimiters) : Prop where
  start_ne_nil : ds.start ≠ []
  stop_ne_nil : ds.stop ≠ []
  differ : ds.start ≠ ds.stop
  no_tag : ¬ "\x7b%".toList <+: ds.start
  no_comment : ¬ "\x7b#".toList <+: ds.start

/-- A memo whose room is not negative and whose entries live for some time. -/
structure MemoSettings.Admissible (m : MemoSettings) : Prop where
  capacity : 0 ≤ m.capacity
  lifetime : elapsed 0 < m.lifetime.span

/-- Settings within all the bounds of the fields. -/
structure Settings.Admissible (s : Settings) : Prop where
  maxDepth : 1 ≤ s.maxDepth
  delimiters : s.delimiters.Admissible
  memo : s.memo.Admissible

/-! ### Results of steps -/

section Except

variable {ε α β : Type}

theorem map_eq_ok {f : α → β} {x : Except ε α} {b : β} :
    x.map f = .ok b ↔ ∃ a, x = .ok a ∧ f a = b := by
  cases x with
  | error e => exact ⟨nofun, nofun⟩
  | ok a =>
    constructor
    · intro h
      exact ⟨a, rfl, Except.ok.inj h⟩
    · rintro ⟨a', ha, rfl⟩
      rw [Except.ok.inj ha]
      rfl

theorem mapError_eq_ok {δ : Type} {f : ε → δ} {x : Except ε α} {a : α} :
    x.mapError f = .ok a ↔ x = .ok a := by
  cases x with
  | error e => exact ⟨nofun, nofun⟩
  | ok a' =>
    constructor
    · intro h
      exact congrArg Except.ok (Except.ok.inj h)
    · intro h
      exact congrArg Except.ok (Except.ok.inj h)

theorem bind_eq_ok {x : Except ε α} {f : α → Except ε β} {b : β} :
    (x >>= f) = .ok b ↔ ∃ a, x = .ok a ∧ f a = .ok b := by
  cases x with
  | error e => exact ⟨nofun, nofun⟩
  | ok a =>
    constructor
    · intro h
      exact ⟨a, rfl, h⟩
    · rintro ⟨a', ha, h⟩
      rw [Except.ok.inj ha]
      exact h

end Except

/-! ### Where nothing is set -/

theorem Delimiters.admissible_default : ({} : Delimiters).Admissible where
  start_ne_nil := by decide
  stop_ne_nil := by decide
  differ := by decide
  no_tag := by decide
  no_comment := by decide

theorem MemoSettings.admissible_default : ({} : MemoSettings).Admissible where
  capacity := by decide
  lifetime := elapsed_lt_elapsed.mpr (by decide)

theorem Settings.admissible_default : ({} : Settings).Admissible where
  maxDepth := by decide
  delimiters := Delimiters.admissible_default
  memo := MemoSettings.admissible_default

/-! ### Lifetimes in seconds -/

/-- A decimal number of seconds is some time exactly if it is not at most zero. -/
theorem elapsed_zero_lt_span {x : Float} : elapsed 0 < (Lifetime.decimal x).span ↔ ¬ x ≤ 0.0 := by
  have endless : elapsed 0 < (⊤ : WithBot (WithTop Rat)) :=
    WithBot.coe_lt_coe.mpr (WithTop.coe_lt_top 0)
  rw [Number.le_zero_iff, Lifetime.span]
  cases Number.decode x with
  | finite negative m e =>
    have den := Number.dyadic_den_ne_zero m e
    have num := Number.dyadic_num_eq_zero_iff m e
    dsimp only
    generalize Number.dyadic m e = fraction at den num ⊢
    obtain ⟨n, d⟩ := fraction
    refine elapsed_lt_elapsed.trans ((Rat.mkRat_pos_iff _ den).trans ?_)
    cases negative with
    | true => simp
    | false => simp [Nat.pos_iff_ne_zero, num]
  | infinite negative => cases negative <;> simp [endless]
  | notANumber => simp [endless]

namespace Check

variable {α β : Type} {es : List (Value × Value)} {v : Value}

/-! ### What a check lets through -/

theorem both_eq_ok {f : Check (α → β)} {c : Check α} {b : β} :
    both f c = .ok b ↔ ∃ g a, f = .ok g ∧ c = .ok a ∧ g a = b := by
  cases f with
  | error cs => cases c <;> exact ⟨nofun, nofun⟩
  | ok g =>
    cases c with
    | error cs => exact ⟨nofun, nofun⟩
    | ok a =>
      constructor
      · intro h
        exact ⟨g, a, rfl, rfl, Except.ok.inj h⟩
      · rintro ⟨g', a', hg, ha, rfl⟩
        rw [Except.ok.inj hg, Except.ok.inj ha]
        rfl

/-- What holds of all values that a check lets through and of the one that holds where nothing is set
holds of every value of the field. -/
theorem field_induction {P : α → Prop} {name : Text} {check : Value → Check α} {usual a : α}
    (h : field es name check usual = .ok a) (default : P usual)
    (checked : ∀ v a, check v = .ok a → P a) : P a := by
  rw [field] at h
  split at h
  case h_1 v found => exact checked v a (mapError_eq_ok.mp h)
  case h_2 => exact Except.ok.inj h ▸ default

theorem le_of_integerFrom {least n : Int} (h : integerFrom least v = .ok n) : least ≤ n := by
  obtain ⟨m, -, h⟩ := bind_eq_ok.mp h
  split at h
  case isTrue => cases h
  case isFalse above =>
    obtain rfl : m = n := Except.ok.inj h
    exact not_lt.mp above

theorem not_le_of_positive {x : Float} (h : positive v = .ok x) : ¬ x ≤ 0.0 := by
  obtain ⟨y, -, h⟩ := bind_eq_ok.mp h
  split at h
  case isTrue => cases h
  case isFalse above =>
    obtain rfl : y = x := Except.ok.inj h
    exact above

theorem ne_nil_of_someText {t : Text} (h : someText v = .ok t) : t ≠ [] := by
  obtain ⟨u, -, h⟩ := bind_eq_ok.mp h
  split at h
  case isTrue => cases h
  case isFalse some =>
    obtain rfl : u = t := Except.ok.inj h
    intro empty
    exact some (empty ▸ rfl)

/-! ### Groups of fields -/

theorem admissible_of_distinctDelimiters {ds ds' : Delimiters} (h : distinctDelimiters ds = .ok ds')
    (hs : ds.start ≠ []) (hp : ds.stop ≠ []) : ds'.Admissible := by
  rw [distinctDelimiters] at h
  split at h
  case isTrue => cases h
  case isFalse differ =>
    split at h
    case isTrue => cases h
    case isFalse free =>
      obtain rfl : ds = ds' := Except.ok.inj h
      rw [not_or, Option.not_isSome_iff_eq_none, Option.not_isSome_iff_eq_none,
        dropLead?_eq_none, dropLead?_eq_none] at free
      exact ⟨hs, hp, differ, free.1, free.2⟩

theorem admissible_of_delimiters {ds : Delimiters} (h : delimiters v = .ok ds) : ds.Admissible := by
  obtain ⟨es, -, h⟩ := bind_eq_ok.mp h
  obtain ⟨read, hr, h⟩ := bind_eq_ok.mp h
  obtain ⟨withStart, stop, hs, hstop, rfl⟩ := both_eq_ok.mp hr
  obtain ⟨start, hstart, rfl⟩ := map_eq_ok.mp hs
  have usual := Delimiters.admissible_default
  apply admissible_of_distinctDelimiters h
  · exact field_induction (P := (· ≠ [])) hstart usual.start_ne_nil fun v t => ne_nil_of_someText
  · exact field_induction (P := (· ≠ [])) hstop usual.stop_ne_nil fun v t => ne_nil_of_someText

theorem admissible_of_memo {m : MemoSettings} (h : memo v = .ok m) : m.Admissible := by
  obtain ⟨es, -, h⟩ := bind_eq_ok.mp h
  obtain ⟨f, shared, hf, -, rfl⟩ := both_eq_ok.mp h
  obtain ⟨f', lifetime, hf', hlifetime, rfl⟩ := both_eq_ok.mp hf
  obtain ⟨capacity, hcapacity, rfl⟩ := map_eq_ok.mp hf'
  have usual := MemoSettings.admissible_default
  constructor
  · exact field_induction hcapacity usual.capacity fun v n => le_of_integerFrom
  · apply field_induction (P := (elapsed 0 < ·.span)) hlifetime usual.lifetime
    intro v l h
    obtain ⟨x, hx, rfl⟩ := map_eq_ok.mp h
    exact elapsed_zero_lt_span.mpr (not_le_of_positive hx)

/-- Settings that come out of a mapping are within all the bounds. -/
theorem admissible_of_settings {s : Settings} (h : settings es = .ok s) : s.Admissible := by
  obtain ⟨f₁, debug, h₁, -, rfl⟩ := both_eq_ok.mp h
  obtain ⟨f₂, lstripBlocks, h₂, -, rfl⟩ := both_eq_ok.mp h₁
  obtain ⟨f₃, trimBlocks, h₃, -, rfl⟩ := both_eq_ok.mp h₂
  obtain ⟨f₄, sandbox, h₄, -, rfl⟩ := both_eq_ok.mp h₃
  obtain ⟨f₅, memo, h₅, hmemo, rfl⟩ := both_eq_ok.mp h₄
  obtain ⟨f₆, delimiters, h₆, hdelimiters, rfl⟩ := both_eq_ok.mp h₅
  obtain ⟨f₇, dataFiles, h₇, -, rfl⟩ := both_eq_ok.mp h₆
  obtain ⟨f₈, data, h₈, -, rfl⟩ := both_eq_ok.mp h₇
  obtain ⟨f₉, maxDepth, h₉, hmaxDepth, rfl⟩ := both_eq_ok.mp h₈
  obtain ⟨f₁₀, partials, h₁₀, -, rfl⟩ := both_eq_ok.mp h₉
  obtain ⟨root, -, rfl⟩ := map_eq_ok.mp h₁₀
  have usual := Settings.admissible_default
  constructor
  · exact field_induction hmaxDepth usual.maxDepth fun v n => le_of_integerFrom
  · exact field_induction hdelimiters usual.delimiters fun v ds => admissible_of_delimiters
  · exact field_induction hmemo usual.memo fun v m => admissible_of_memo

end Check

end Pagewright

namespace Pagewright

variable {tree : Tree} {env : List (Text × Text)} {s : Settings}

/-! ### Data files -/

/-- Merging files into data reads all of them first and merges what was read in order. -/
theorem mergeData_eq (data : List (Value × Value)) (ps : List DiskPath) :
    mergeData tree data ps =
      (ps.mapM (loadData tree)).map (List.foldl Value.deepMerge data) := by
  induction ps generalizing data with
  | nil => rfl
  | cons p ps ih =>
    rw [mergeData, List.mapM_cons]
    cases loadData tree p with
    | error f => rfl
    | ok more =>
      change mergeData tree (Value.deepMerge data more) ps = _
      rw [ih]
      cases List.mapM (loadData tree) ps <;> rfl

/-! ### Settings of a file -/

theorem admissible_of_settings? {es : List (Value × Value)} (h : settings? env es = .ok s) :
    s.Admissible := by
  obtain ⟨s, hs, rfl⟩ := map_eq_ok.mp h
  have bounds := Check.admissible_of_settings hs
  exact ⟨bounds.maxDepth, bounds.delimiters, bounds.memo⟩

theorem admissible_of_settingsOf {base : Option DiskPath} {es : List (Value × Value)}
    (h : settingsOf tree env base es = .ok s) : s.Admissible := by
  rw [settingsOf] at h
  split at h
  case isTrue => cases h
  obtain ⟨read, hr, h⟩ := bind_eq_ok.mp h
  obtain ⟨data, -, h⟩ := bind_eq_ok.mp h
  have bounds := admissible_of_settings? (mapError_eq_ok.mp hr)
  obtain rfl := Except.ok.inj h
  exact ⟨bounds.maxDepth, bounds.delimiters, bounds.memo⟩

theorem admissible_of_loadSettings {references : References} {p : DiskPath}
    (h : loadSettings tree env references p = .ok s) : s.Admissible := by
  rw [loadSettings] at h
  split at h
  case h_1 => cases h
  case h_2 t found =>
    obtain ⟨v, -, h⟩ := bind_eq_ok.mp h
    obtain ⟨es, -, h⟩ := bind_eq_ok.mp h
    dsimp only at h
    split at h
    all_goals
      obtain ⟨es', -, h⟩ := bind_eq_ok.mp h
      exact admissible_of_settingsOf h

/-- The settings of a file, or those that hold where nothing is set. -/
def fileSettings (tree : Tree) (env : List (Text × Text)) : Option DiskPath → Load Settings
  | some p => loadSettings tree env .lenient p
  | none => settingsOf tree env none []

theorem admissible_of_fileSettings {file : Option DiskPath}
    (h : fileSettings tree env file = .ok s) : s.Admissible := by
  cases file with
  | some p => exact admissible_of_loadSettings h
  | none =>
    rw [fileSettings] at h
    exact admissible_of_settingsOf h

/-! ### Settings of a command line -/

/-- There are settings exactly if those of the file and all further data files can be read.  What the
command line sets stands in place of what the file says, the further data are merged over those of the
file in order, and everything else is as in the file, which keeps all bounds.  A depth that the command
line sets is not checked: the settings are within the bounds exactly if it is at least one. -/
theorem buildSettings_eq_ok (tree : Tree) (env : List (Text × Text)) (o : Overrides) (s : Settings) :
    buildSettings tree env o = .ok s ↔
      ∃ base more,
        fileSettings tree env o.file = .ok base ∧
        o.dataFiles.mapM (loadData tree) = .ok more ∧
        s = { base with
          root := o.root.getD base.root
          partials := o.partials.getD base.partials
          maxDepth := o.maxDepth.getD base.maxDepth
          data := more.foldl Value.deepMerge base.data } ∧
        base.Admissible ∧ (s.Admissible ↔ ∀ d, o.maxDepth = some d → 1 ≤ d) := by
  have read : buildSettings tree env o = (do
      let base ← fileSettings tree env o.file
      let data ← mergeData tree base.data o.dataFiles
      return { base with
        root := o.root.getD base.root
        partials := o.partials.getD base.partials
        maxDepth := o.maxDepth.getD base.maxDepth
        data := data }) := by
    rw [buildSettings]
    cases o.file <;> rfl
  rw [read]
  constructor
  · intro h
    obtain ⟨base, hbase, h⟩ := bind_eq_ok.mp h
    obtain ⟨data, hdata, h⟩ := bind_eq_ok.mp h
    rw [mergeData_eq] at hdata
    obtain ⟨more, hmore, rfl⟩ := map_eq_ok.mp hdata
    obtain rfl := Except.ok.inj h
    have bounds := admissible_of_fileSettings hbase
    refine ⟨base, more, hbase, hmore, rfl, bounds, ?_⟩
    constructor
    · intro within d hd
      have depth := within.maxDepth
      rw [hd] at depth
      exact depth
    · intro checked
      refine ⟨?_, bounds.delimiters, bounds.memo⟩
      cases hd : o.maxDepth with
      | none => exact bounds.maxDepth
      | some d => exact checked d hd
  · rintro ⟨base, more, hbase, hmore, rfl, -, -⟩
    refine bind_eq_ok.mpr ⟨base, hbase, bind_eq_ok.mpr ⟨more.foldl Value.deepMerge base.data, ?_, rfl⟩⟩
    rw [mergeData_eq]
    exact map_eq_ok.mpr ⟨more, hmore, rfl⟩

/-- Without a file and with no depth at all, there are settings, but not within the bounds. -/
theorem buildSettings_no_depth :
    ∃ s, buildSettings {} [] { maxDepth := some 0 } = .ok s ∧ ¬ s.Admissible := by
  refine ⟨{ maxDepth := 0 }, rfl, ?_⟩
  obtain ⟨-, -, -, -, -, -, within⟩ :=
    (buildSettings_eq_ok {} [] { maxDepth := some 0 } { maxDepth := 0 }).mp rfl
  intro bounds
  exact absurd (within.mp bounds 0 rfl) (by decide)

end Pagewright
