/-
What variables say, and what is said of them if they say nothing.

The reading asks for one variable after the other.  `Config.readAll` is the same reading as a loop,
so that what it does for one setting (`Setting.put_of_valid`, `Setting.put_of_not_valid`) is carried
through the loop by induction on the settings still to come.

The grammar stands on its own: `Setting.Valid` is a property of the text of a variable, and
`Setting.Tells` relates it to the settings.  A lookup all of whose texts are valid is read as the
one configuration that they and the defaults describe; any other is refused for the first text that
is not valid, and nothing behind it is asked for (`Config.reading_decided_by_grammar`).
-/
import FirstFit.Proofs.Creation
import FirstFit.Proofs.Spelling

namespace FirstFit

open Text

variable {lookup : Setting → Option String} {config config' : Config} {setting : Setting}
  {value : String} {e e' : ConfigError} {before later settings : List Setting}

/-! ### The grammar -/

namespace Setting

/-- The settings in the order in which their variables are asked for. -/
def inOrder : List Setting := [.align, .verify, .capture]

/-- The text of a variable is one that can be set. -/
def Valid (value : String) : Setting → Prop
  | .align => ∃ text n, Trimmed value.toList text ∧ Numeral text n ∧
      n.isPowerOfTwo ∧ 8 ≤ n ∧ n < 2 ^ 64
  | .verify => ∃ text, Trimmed value.toList text ∧
      ∃ name ∈ ["none", "alloc", "release", "free", "always"], Spelt name text
  | .capture => ∃ text, Trimmed value.toList text ∧
      ∃ name ∈ ["1", "true", "0", "false"], name.toList = text

/-- The text of a variable says what a configuration has for its setting. -/
def Tells (config : Config) (value : String) : Setting → Prop
  | .align => ∃ text, Trimmed value.toList text ∧ Numeral text config.unit.bytes
  | .verify => ∃ text, Trimmed value.toList text ∧ ∃ name ∈ config.verify.names, Spelt name text
  | .capture => ∃ text, Trimmed value.toList text ∧
      ∃ name ∈ switchNames config.capture, name.toList = text

/-- Two configurations have the same for a setting. -/
def Agree (config config' : Config) : Setting → Prop
  | .align => config.unit = config'.unit
  | .verify => config.verify = config'.verify
  | .capture => config.capture = config'.capture

/-- What is said of a text that is not valid: the number it denotes, if it is to be a number and is
one that fits into a word; the text as it was found, if not. -/
inductive Blames (value : String) : Setting → ConfigError → Prop
  | unit {text : List Char} {n : Nat} (htrimmed : Trimmed value.toList text)
      (hnumeral : Numeral text n) (hlt : n < 2 ^ 64) : Blames value .align (.unit n)
  | text {setting : Setting} (hnone : setting = .align → ∀ text n, Trimmed value.toList text →
      Numeral text n → 2 ^ 64 ≤ n) : Blames value setting (.text setting value)

/-- The first of the variables whose text is not valid, and what was asked for before it. -/
structure FirstInvalid (lookup : Setting → Option String) (before : List Setting)
    (setting : Setting) (value : String) : Prop where
  inOrder : ∃ later, Setting.inOrder = before ++ setting :: later
  valid : ∀ s ∈ before, ∀ v, lookup s = some v → s.Valid v
  present : lookup setting = some value
  not_valid : ¬ setting.Valid value

end Setting

/-- A configuration has what the variables say, and the defaults where there is none. -/
structure Config.Conforms (config : Config) (lookup : Setting → Option String) : Prop where
  present : ∀ setting value, lookup setting = some value → setting.Tells config value
  absent : ∀ setting, lookup setting = none → setting.Agree config {}

/-! ### One text -/

namespace Setting

theorem tells_align_iff :
    Setting.align.Tells config value ↔ word? (trim value.toList) = some config.unit.bytes := by
  simp only [Tells, trimmed_iff, exists_eq_left', word?_eq_some_iff]
  exact (and_iff_left config.unit.lt_limit).symm

theorem tells_verify_iff :
    Setting.verify.Tells config value ↔ verify? (trim value.toList) = some config.verify := by
  simp only [Tells, trimmed_iff, exists_eq_left', verify?_eq_some_iff]

theorem tells_capture_iff :
    Setting.capture.Tells config value ↔ switch? (trim value.toList) = some config.capture := by
  simp only [Tells, trimmed_iff, exists_eq_left', switch?_eq_some_iff]

/-- A text is valid if there is a configuration that it describes. -/
theorem valid_iff_exists_tells : setting.Valid value ↔ ∃ config, setting.Tells config value := by
  cases setting with
  | align =>
    constructor
    · rintro ⟨text, n, htrimmed, hnumeral, hpower, hle, hlt⟩
      exact ⟨{ unit := ⟨n, hpower, hle, hlt⟩ }, text, htrimmed, hnumeral⟩
    · rintro ⟨config, text, htrimmed, hnumeral⟩
      exact ⟨text, _, htrimmed, hnumeral, config.unit.isPowerOfTwo, config.unit.word_le,
        config.unit.lt_limit⟩
  | verify =>
    simp only [Valid, mem_names_iff]
    constructor
    · rintro ⟨text, htrimmed, name, ⟨verify, hname⟩, hspelt⟩
      exact ⟨{ verify := verify }, text, htrimmed, name, hname, hspelt⟩
    · rintro ⟨config, text, htrimmed, name, hname, hspelt⟩
      exact ⟨text, htrimmed, name, ⟨config.verify, hname⟩, hspelt⟩
  | capture =>
    simp only [Valid, mem_switchNames_iff]
    constructor
    · rintro ⟨text, htrimmed, name, ⟨capture, hname⟩, rfl⟩
      exact ⟨{ capture := capture }, _, htrimmed, name, hname, rfl⟩
    · rintro ⟨config, text, htrimmed, name, hname, hsame⟩
      exact ⟨text, htrimmed, name, ⟨config.capture, hname⟩, hsame⟩

/-- Two configurations that a text describes have the same for its setting. -/
theorem Tells.agree (h : setting.Tells config value) (h' : setting.Tells config' value) :
    setting.Agree config config' := by
  cases setting with
  | align =>
    have hbytes := (tells_align_iff.mp h).symm.trans (tells_align_iff.mp h')
    exact AlignUnit.ext (Option.some.inj hbytes)
  | verify => exact Option.some.inj ((tells_verify_iff.mp h).symm.trans (tells_verify_iff.mp h'))
  | capture => exact Option.some.inj ((tells_capture_iff.mp h).symm.trans (tells_capture_iff.mp h'))

/-- A text says nothing about the other settings. -/
theorem Tells.of_agree (h : setting.Tells config value) (hagree : setting.Agree config' config) :
    setting.Tells config' value := by
  cases setting <;>
  · simp only [Agree] at hagree
    simpa only [Tells, hagree] using h

/-- There is one thing to be said of a text that is not valid. -/
theorem Blames.unique (h : setting.Blames value e) (h' : setting.Blames value e') : e = e' := by
  cases h with
  | unit htrimmed hnumeral hlt =>
    cases h' with
    | unit htrimmed' hnumeral' hlt' =>
      obtain rfl := htrimmed.trim_eq.symm.trans htrimmed'.trim_eq
      have hword := (word?_eq_some_iff.mpr ⟨hnumeral, hlt⟩).symm.trans
        (word?_eq_some_iff.mpr ⟨hnumeral', hlt'⟩)
      rw [Option.some.inj hword]
    | text hnone => exact absurd hlt (Nat.not_lt.mpr (hnone rfl _ _ htrimmed hnumeral))
  | text hnone =>
    cases h' with
    | unit htrimmed hnumeral hlt =>
      exact absurd hlt (Nat.not_lt.mpr (hnone rfl _ _ htrimmed hnumeral))
    | text hnone' => rfl

/-! ### One variable -/

/-- A configuration with what the text of a variable says. -/
def put (config : Config) (value : String) : Setting → Except ConfigError Config
  | .align =>
    match word? (trim value.toList) with
    | some bytes => config.withUnit bytes
    | none => .error (.text .align value)
  | .verify =>
    match verify? (trim value.toList) with
    | some choice => .ok { config with verify := choice }
    | none => .error (.text .verify value)
  | .capture =>
    match switch? (trim value.toList) with
    | some choice => .ok { config with capture := choice }
    | none => .error (.text .capture value)

/-- A configuration with what another one has for a setting. -/
def copy (described config : Config) : Setting → Config
  | .align => { config with unit := described.unit }
  | .verify => { config with verify := described.verify }
  | .capture => { config with capture := described.capture }

theorem copy_agree (described config : Config) (setting : Setting) :
    setting.Agree (setting.copy described config) described := by
  cases setting <;> rfl

theorem copy_agree_of_ne {other : Setting} (described config : Config) (hne : other ≠ setting) :
    other.Agree (setting.copy described config) config := by
  cases other <;> cases setting <;> simp_all [Agree, copy]

theorem put_of_tells {described : Config} (htells : setting.Tells described value)
    (config : Config) : setting.put config value = .ok (setting.copy described config) := by
  cases setting with
  | align =>
    rw [put, tells_align_iff.mp htells]
    exact Config.withUnit_eq_ok_iff.mpr ⟨_, rfl, rfl⟩
  | verify => rw [put, tells_verify_iff.mp htells, copy]
  | capture => rw [put, tells_capture_iff.mp htells, copy]

/-- A text that is valid is put into its setting, and into no other. -/
theorem put_of_valid (hvalid : setting.Valid value) (config : Config) :
    ∃ config', setting.put config value = .ok config' ∧ setting.Tells config' value ∧
      ∀ other, other ≠ setting → other.Agree config' config := by
  obtain ⟨described, htells⟩ := valid_iff_exists_tells.mp hvalid
  exact ⟨_, put_of_tells htells config, htells.of_agree (copy_agree described config setting),
    fun other hne => copy_agree_of_ne described config hne⟩

theorem put_of_not_valid (hvalid : ¬ setting.Valid value) (config : Config) :
    ∃ e, setting.put config value = .error e ∧ setting.Blames value e := by
  rw [valid_iff_exists_tells, not_exists] at hvalid
  cases setting with
  | align =>
    cases hword : word? (trim value.toList) with
    | none =>
      refine ⟨.text .align value, by rw [put, hword], .text fun _ text n htrimmed hnumeral => ?_⟩
      by_contra hlt
      rw [htrimmed.trim_eq, word?_eq_some_iff.mpr ⟨hnumeral, by omega⟩] at hword
      cases hword
    | some n =>
      obtain ⟨hnumeral, hlt⟩ := word?_eq_some_iff.mp hword
      refine ⟨.unit n, ?_, .unit (trimmed_trim value.toList) hnumeral hlt⟩
      rw [put, hword]
      cases hunit : AlignUnit.ofBytes? n with
      | none => simp only [Config.withUnit, hunit]
      | some unit =>
        have hset : config.withUnit n = .ok { config with unit } := by
          rw [Config.withUnit, hunit]
        refine absurd (tells_align_iff.mpr ?_) (hvalid { config with unit })
        rw [hword, Config.bytes_of_withUnit hset]
  | verify =>
    cases hverify : verify? (trim value.toList) with
    | none => exact ⟨.text .verify value, by rw [put, hverify], .text nofun⟩
    | some choice => exact absurd (tells_verify_iff.mpr hverify) (hvalid { verify := choice })
  | capture =>
    cases hcapture : switch? (trim value.toList) with
    | none => exact ⟨.text .capture value, by rw [put, hcapture], .text nofun⟩
    | some choice => exact absurd (tells_capture_iff.mpr hcapture) (hvalid { capture := choice })

theorem Agree.trans {config₀ : Config} (h : setting.Agree config config')
    (h' : setting.Agree config' config₀) : setting.Agree config config₀ := by
  cases setting <;> exact Eq.trans h h'

theorem mem_inOrder (setting : Setting) : setting ∈ inOrder := by
  cases setting <;> decide

end Setting

/-! ### One variable after the other -/

namespace Config

/-- Reads the variables of some settings into a configuration. -/
def readAll (lookup : Setting → Option String) : List Setting → Config → Reading Config
  | [], config => pure config
  | setting :: later, config => do
    modify (· ++ [setting])
    match lookup setting with
    | none => readAll lookup later config
    | some value =>
      match setting.put config value with
      | .ok config => readAll lookup later config
      | .error e => throw e

/-- To consult a variable is to ask for it, and then to see what it says. -/
theorem consult_bind {α β : Type} (lookup : Setting → Option String) (setting : Setting)
    (parse? : List Char → Option α) (f : Option α → Reading β) :
    consult lookup setting parse? >>= f = (do
      modify (· ++ [setting])
      match lookup setting with
      | none => f none
      | some value =>
        match parse? (trim value.toList) with
        | some choice => f (some choice)
        | none => throw (.text setting value)) := by
  unfold consult
  cases lookup setting with
  | none => rfl
  | some value =>
    cases h : parse? (trim value.toList) with
    | none => simp only [h]; rfl
    | some c => simp only [h]; rfl

theorem read_capture (config : Config) :
    (do
      let capture ← consult lookup .capture Setting.switch?
      return { config with capture := capture.getD config.capture }) =
    readAll lookup [.capture] config := by
  rw [consult_bind, readAll]
  congr 1
  funext _
  rcases lookup .capture with _ | value
  · rfl
  · simp only [Setting.put]
    cases Setting.switch? (trim value.toList) <;> rfl

theorem read_verify (config : Config) :
    (do
      let verify ← consult lookup .verify Setting.verify?
      let capture ← consult lookup .capture Setting.switch?
      return { config with
        verify := verify.getD config.verify
        capture := capture.getD config.capture }) =
    readAll lookup [.verify, .capture] config := by
  rw [consult_bind, readAll]
  congr 1
  funext _
  rcases lookup .verify with _ | value
  · exact read_capture config
  · simp only [Setting.put]
    cases Setting.verify? (trim value.toList) with
    | none => rfl
    | some choice => exact read_capture { config with verify := choice }

theorem reading_eq (lookup : Setting → Option String) :
    reading lookup = readAll lookup Setting.inOrder {} := by
  unfold reading
  rw [consult_bind, Setting.inOrder, readAll]
  congr 1
  funext _
  rcases lookup .align with _ | value
  · exact read_verify {}
  · simp only [Setting.put]
    cases Setting.word? (trim value.toList) with
    | none => rfl
    | some bytes =>
      cases hunit : Config.withUnit {} bytes with
      | error e => simp only [hunit]; rfl
      | ok config =>
        simp only [hunit]
        exact read_verify config

theorem run_readAll_cons (config : Config) (past : List Setting) :
    (readAll lookup (setting :: later) config).run past =
      match lookup setting with
      | none => (readAll lookup later config).run (past ++ [setting])
      | some value =>
        match setting.put config value with
        | .ok config => (readAll lookup later config).run (past ++ [setting])
        | .error e => .error e (past ++ [setting]) := by
  rw [readAll]
  cases lookup setting with
  | none => rfl
  | some value => cases h : setting.put config value <;> simp only [h] <;> rfl

/-- As long as all texts are valid, each sets what it says and the rest stays. -/
theorem run_readAll_of_valid (hvalid : ∀ s ∈ settings, ∀ v, lookup s = some v → s.Valid v)
    (config : Config) (past : List Setting) :
    ∃ config', (readAll lookup settings config).run past = .ok config' (past ++ settings) ∧
      (∀ s ∈ settings, ∀ v, lookup s = some v → s.Tells config' v) ∧
      ∀ s, s ∉ settings ∨ lookup s = none → s.Agree config' config := by
  induction settings generalizing config past with
  | nil =>
    refine ⟨config, by rw [List.append_nil]; rfl, by simp, fun s _ => ?_⟩
    cases s <;> rfl
  | cons setting later ih =>
    have hlater := fun s (hs : s ∈ later) => hvalid s (List.mem_cons_of_mem _ hs)
    rw [List.append_cons]
    cases hlookup : lookup setting with
    | none =>
      obtain ⟨config', hrun, htells, hagree⟩ := ih hlater config (past ++ [setting])
      refine ⟨config', by rw [run_readAll_cons, hlookup]; exact hrun, fun s hs v hv => ?_,
        fun s hs => hagree s (hs.imp_left fun hnot h => hnot (List.mem_cons_of_mem _ h))⟩
      rcases List.mem_cons.mp hs with rfl | hs
      · rw [hlookup] at hv
        cases hv
      · exact htells s hs v hv
    | some value =>
      obtain ⟨mid, hput, hmid, hothers⟩ :=
        Setting.put_of_valid (hvalid setting (by simp) value hlookup) config
      obtain ⟨config', hrun, htells, hagree⟩ := ih hlater mid (past ++ [setting])
      refine ⟨config', by rw [run_readAll_cons, hlookup]; simp only [hput]; exact hrun,
        fun s hs v hv => ?_, fun s hs => ?_⟩
      · by_cases hs' : s ∈ later
        · exact htells s hs' v hv
        · obtain rfl := (List.mem_cons.mp hs).resolve_right hs'
          obtain rfl := Option.some.inj (hlookup.symm.trans hv)
          exact hmid.of_agree (hagree s (.inl hs'))
      · have hne : s ≠ setting := by
          rintro rfl
          rcases hs with hs | hs
          · exact hs (by simp)
          · rw [hlookup] at hs
            cases hs
        exact (hagree s (hs.imp_left fun hnot h => hnot (List.mem_cons_of_mem _ h))).trans
          (hothers s hne)

/-- The first text that is not valid ends the reading. -/
theorem run_readAll_of_not_valid (later : List Setting)
    (hbefore : ∀ s ∈ before, ∀ v, lookup s = some v → s.Valid v)
    (hlookup : lookup setting = some value) (hvalid : ¬ setting.Valid value) (config : Config)
    (past : List Setting) :
    ∃ e, (readAll lookup (before ++ setting :: later) config).run past =
      .error e (past ++ (before ++ [setting])) ∧ setting.Blames value e := by
  induction before generalizing config past with
  | nil =>
    obtain ⟨e, hput, hblames⟩ := Setting.put_of_not_valid hvalid config
    refine ⟨e, ?_, hblames⟩
    rw [List.nil_append, run_readAll_cons, hlookup]
    simp only [hput, List.nil_append]
  | cons first before ih =>
    have hrest := fun s (hs : s ∈ before) => hbefore s (List.mem_cons_of_mem _ hs)
    have hpast : past ++ (first :: before ++ [setting]) =
        past ++ [first] ++ (before ++ [setting]) := by simp
    rw [hpast, List.cons_append, run_readAll_cons]
    cases hfirst : lookup first with
    | none => exact ih hrest config (past ++ [first])
    | some v =>
      obtain ⟨mid, hput, -⟩ := Setting.put_of_valid (hbefore first (by simp) v hfirst) config
      simp only [hput]
      exact ih hrest mid (past ++ [first])

/-! ### All variables -/

/-- The variables and the defaults leave no choice. -/
theorem Conforms.unique (h : config.Conforms lookup) (h' : config'.Conforms lookup) :
    config = config' := by
  have hagree : ∀ setting : Setting, setting.Agree config config' := by
    intro setting
    cases hlookup : lookup setting with
    | none =>
      have hdefault := h.absent setting hlookup
      have hdefault' := h'.absent setting hlookup
      cases setting <;> exact Eq.trans hdefault (Eq.symm hdefault')
    | some value => exact (h.present setting value hlookup).agree (h'.present setting value hlookup)
  obtain ⟨unit, verify, capture⟩ := config
  obtain ⟨unit', verify', capture'⟩ := config'
  have hunit : unit = unit' := hagree .align
  have hverify : verify = verify' := hagree .verify
  have hcapture : capture = capture' := hagree .capture
  rw [hunit, hverify, hcapture]

theorem Conforms.valid (h : config.Conforms lookup) :
    ∀ setting value, lookup setting = some value → setting.Valid value :=
  fun setting value hlookup =>
    Setting.valid_iff_exists_tells.mpr ⟨config, h.present setting value hlookup⟩

theorem ofLookup_of_valid (hvalid : ∀ setting value, lookup setting = some value →
    setting.Valid value) :
    ∃ config, ofLookup lookup = .ok config ∧ config.Conforms lookup ∧
      asked lookup = Setting.inOrder := by
  have hall : ∀ s ∈ Setting.inOrder, ∀ v, lookup s = some v → s.Valid v := fun s _ => hvalid s
  obtain ⟨config, hrun, htells, hagree⟩ := run_readAll_of_valid hall {} []
  rw [← reading_eq] at hrun
  refine ⟨config, by rw [ofLookup, hrun],
    ⟨fun s v => htells s (Setting.mem_inOrder s) v, fun s hs => hagree s (.inr hs)⟩, ?_⟩
  rw [Config.asked, hrun, List.nil_append]

theorem ofLookup_of_firstInvalid (h : Setting.FirstInvalid lookup before setting value) :
    ∃ e, ofLookup lookup = .error e ∧ setting.Blames value e ∧
      asked lookup = before ++ [setting] := by
  obtain ⟨later, horder⟩ := h.inOrder
  obtain ⟨e, hrun, hblames⟩ :=
    run_readAll_of_not_valid later h.valid h.present h.not_valid {} []
  rw [← horder, ← reading_eq] at hrun
  refine ⟨e, by rw [ofLookup, hrun], hblames, ?_⟩
  rw [Config.asked, hrun, List.nil_append]

/-- Either all texts are valid, or one of them is the first that is not. -/
theorem valid_or_firstInvalid (lookup : Setting → Option String) :
    (∀ setting value, lookup setting = some value → setting.Valid value) ∨
      ∃ before setting value, Setting.FirstInvalid lookup before setting value := by
  classical
  cases hfind : Setting.inOrder.find? fun s => ¬ ∀ v, lookup s = some v → s.Valid v with
  | none =>
    refine .inl fun setting => ?_
    simpa using List.find?_eq_none.mp hfind setting (Setting.mem_inOrder setting)
  | some setting =>
    obtain ⟨hnot, before, later, horder, hbefore⟩ := List.find?_eq_some_iff_append.mp hfind
    simp only [decide_eq_true_eq, not_forall] at hnot
    obtain ⟨value, hlookup, hvalid⟩ := hnot
    exact .inr ⟨before, setting, value, ⟨later, horder⟩, by simpa using hbefore, hlookup, hvalid⟩

theorem ofLookup_eq_ok_iff : ofLookup lookup = .ok config ↔ config.Conforms lookup := by
  constructor
  · intro hread
    rcases valid_or_firstInvalid lookup with hvalid | ⟨before, setting, value, h⟩
    · obtain ⟨config', hread', hconforms, -⟩ := ofLookup_of_valid hvalid
      rw [Except.ok.inj (hread.symm.trans hread')]
      exact hconforms
    · obtain ⟨e, hrefused, -⟩ := ofLookup_of_firstInvalid h
      rw [hread] at hrefused
      cases hrefused
  · intro hconforms
    obtain ⟨config', hread, hconforms', -⟩ := ofLookup_of_valid hconforms.valid
    rw [hread, hconforms.unique hconforms']

theorem ofLookup_eq_error_iff : ofLookup lookup = .error e ↔
    ∃ before setting value, Setting.FirstInvalid lookup before setting value ∧
      setting.Blames value e := by
  constructor
  · intro hrefused
    rcases valid_or_firstInvalid lookup with hvalid | ⟨before, setting, value, h⟩
    · obtain ⟨config, hread, -⟩ := ofLookup_of_valid hvalid
      rw [hrefused] at hread
      cases hread
    · obtain ⟨e', hrefused', hblames, -⟩ := ofLookup_of_firstInvalid h
      rw [Except.error.inj (hrefused.symm.trans hrefused')]
      exact ⟨before, setting, value, h, hblames⟩
  · rintro ⟨before, setting, value, h, hblames⟩
    obtain ⟨e', hrefused, hblames', -⟩ := ofLookup_of_firstInvalid h
    rw [hrefused, hblames.unique hblames']

/-- What is not asked for may be anything. -/
theorem ofLookup_congr {lookup' : Setting → Option String}
    (hsame : ∀ setting ∈ asked lookup, lookup' setting = lookup setting) :
    ofLookup lookup' = ofLookup lookup ∧ asked lookup' = asked lookup := by
  rcases valid_or_firstInvalid lookup with hvalid | ⟨before, setting, value, h⟩
  · obtain ⟨config, -, -, hasked⟩ := ofLookup_of_valid hvalid
    have heq : lookup' = lookup :=
      funext fun setting => hsame setting (hasked ▸ Setting.mem_inOrder setting)
    rw [heq]
    exact ⟨rfl, rfl⟩
  · obtain ⟨e, hrefused, hblames, hasked⟩ := ofLookup_of_firstInvalid h
    rw [hasked] at hsame
    have h' : Setting.FirstInvalid lookup' before setting value :=
      ⟨h.inOrder, fun s hs v hv => h.valid s hs v ((hsame s (by simp [hs])).symm.trans hv),
        (hsame setting (by simp)).trans h.present, h.not_valid⟩
    obtain ⟨e', hrefused', hblames', hasked'⟩ := ofLookup_of_firstInvalid h'
    rw [hrefused, hrefused', hasked, hasked', hblames.unique hblames']
    exact ⟨rfl, rfl⟩

/-! ### Configurations in writing -/

/-- Texts that describe a configuration. -/
def written (config : Config) : Setting → Option String
  | .align => some (String.ofList
      (((Nat.digits 10 config.unit.bytes).reverse.map (Fin.ofNat 10)).map digit))
  | .verify => config.verify.names.head?
  | .capture => (Setting.switchNames config.capture).head?

/-- A number is written by its digits, of which there is one at least if it is not zero. -/
theorem numeral_digits {n : Nat} (hpos : 0 < n) :
    Numeral (((Nat.digits 10 n).reverse.map (Fin.ofNat 10)).map digit) n := by
  refine ⟨_, ?_, .inl rfl, ?_⟩
  · simp [Nat.digits_ne_nil_iff_ne_zero.mpr hpos.ne']
  · have hdigits : (Nat.digits 10 n).map (Fin.val ∘ Fin.ofNat 10) = Nat.digits 10 n := by
      conv_rhs => rw [← List.map_id (Nat.digits 10 n)]
      exact List.map_congr_left fun d hd => Nat.mod_eq_of_lt (Nat.digits_lt_base (by omega) hd)
    rw [← List.map_reverse, List.reverse_reverse, List.map_map, hdigits, Nat.ofDigits_digits]

theorem conforms_written (config : Config) : config.Conforms config.written := by
  refine ⟨fun setting value hvalue => ?_, fun setting hnone => ?_⟩
  · cases setting with
    | align =>
      obtain rfl := Option.some.inj hvalue
      refine ⟨_, trimmed_self ?_, ?_⟩
      · intro c hc
        rw [String.toList_ofList] at hc
        obtain ⟨d, -, rfl⟩ := List.mem_map.mp hc
        exact (digit_spec d).2.2.2
      · rw [String.toList_ofList]
        exact numeral_digits config.unit.bytes_pos
    | verify =>
      have hname : value ∈ config.verify.names := List.mem_of_head? hvalue
      exact ⟨_, trimmed_self fun c hc =>
        Setting.not_blank_of_isLower (Setting.isLower_of_mem_names hname c hc), value, hname,
        List.forall₂_same.mpr fun _ _ => .inl rfl⟩
    | capture =>
      have hname : value ∈ Setting.switchNames config.capture := List.mem_of_head? hvalue
      exact ⟨_, trimmed_self (Setting.not_blank_of_mem_switchNames hname), value, hname, rfl⟩
  · obtain ⟨unit, ⟨afterAllocate, afterRelease⟩, capture⟩ := config
    cases setting with
    | align => cases hnone
    | verify => cases afterAllocate <;> cases afterRelease <;> cases hnone
    | capture => cases capture <;> cases hnone

/-- A lookup is read by the grammar of its texts. -/
structure DecidedByGrammar (lookup : Setting → Option String) : Prop where
  /-- What is read is what the texts and the defaults say. -/
  accepted : ∀ config, ofLookup lookup = .ok config ↔ config.Conforms lookup
  valid : (∃ config, ofLookup lookup = .ok config) ↔
    ∀ setting value, lookup setting = some value → setting.Valid value
  /-- The first text that is not valid is blamed. -/
  refused : ∀ e, ofLookup lookup = .error e ↔
    ∃ before setting value, Setting.FirstInvalid lookup before setting value ∧
      setting.Blames value e
  /-- What comes behind it is not asked for, and may be anything. -/
  asked_of_valid : (∀ setting value, lookup setting = some value → setting.Valid value) →
    asked lookup = Setting.inOrder
  asked_of_firstInvalid : ∀ before setting value,
    Setting.FirstInvalid lookup before setting value → asked lookup = before ++ [setting]
  unread : ∀ lookup' : Setting → Option String,
    (∀ setting ∈ asked lookup, lookup' setting = lookup setting) →
      ofLookup lookup' = ofLookup lookup ∧ asked lookup' = asked lookup

/-- **Variables are read exactly if all of their texts are valid, as the configuration that they
describe, and otherwise refused for the first text that is not, without a look at the rest.**  Each
configuration can be written so. -/
theorem reading_decided_by_grammar :
    (∀ lookup, DecidedByGrammar lookup) ∧ ∀ config, ofLookup (written config) = .ok config := by
  refine ⟨fun lookup => ?_, fun config => ofLookup_eq_ok_iff.mpr config.conforms_written⟩
  refine ⟨fun config => ofLookup_eq_ok_iff, ⟨?_, ?_⟩, fun e => ofLookup_eq_error_iff, ?_, ?_,
    fun lookup' => ofLookup_congr⟩
  · rintro ⟨config, hread⟩
    exact (ofLookup_eq_ok_iff.mp hread).valid
  · intro hvalid
    obtain ⟨config, hread, -⟩ := ofLookup_of_valid hvalid
    exact ⟨config, hread⟩
  · intro hvalid
    obtain ⟨config, -, -, hasked⟩ := ofLookup_of_valid hvalid
    exact hasked
  · intro before setting value h
    obtain ⟨e, -, -, hasked⟩ := ofLookup_of_firstInvalid h
    exact hasked

/-- A plus, zeros and white space are allowed, a name may be in capitals, and a unit that is none is
named by its number. -/
example :
    (ofLookup fun
      | .align => some " +0016\t"
      | .verify => some "Free"
      | .capture => none) =
        .ok { unit := ⟨16, ⟨4, rfl⟩, by decide, by decide⟩, verify := .release } ∧
    (ofLookup fun
      | .align => some "24"
      | _ => some "?") = .error (.unit 24) := by
  decide +kernel

end Config

end FirstFit
