import Accelerator.Proofs.Device.Fresh
import Accelerator.Proofs.Partition
import Mathlib.Order.Bounds.Basic

/-!
# Devices of a given number of units

Who asks for a number of units with a number of lanes each gets wavefronts of the default size,
rounded up to whole turns of the lanes. The size is computed with words, from the low bits of the
number of lanes, and what comes of it is validated with the whole number. The two agree where the
number is a word (`DeviceConfig.ofUnits?_of_lt`). A larger number has low bits of its own, but no
multiple of it is a word, so that the configuration is refused, whatever they are, unless there are
none: then there is nothing to divide by, and this is not found out before the division
(`Device.ofUnits_eq`).
-/

namespace Accelerator

/-! ## Rounding up -/

/-- A quotient rounded up, times the divisor, is the least multiple that is not smaller. -/
theorem isLeast_ceilDiv_mul (total : Nat) {part : Nat} (positive : 0 < part) :
    IsLeast {n | total ≤ n ∧ part ∣ n} (ceilDiv total part * part) := by
  have below (k : Nat) : k < ceilDiv total part ↔ k * part < total :=
    NdRange.lt_ceilDiv_iff positive
  refine ⟨⟨Nat.not_lt.mp (mt (below _).mpr (Nat.lt_irrefl _)), Nat.dvd_mul_left ..⟩, ?_⟩
  intro n multiple
  obtain ⟨large, k, rfl⟩ := multiple
  rw [Nat.mul_comm part k] at large ⊢
  exact Nat.mul_le_mul_right part (Nat.not_lt.mp (mt (below k).mp (Nat.not_lt.mpr large)))

/-- The default size, rounded up to a multiple of a word, is a word. -/
theorem ceilDiv_default_mul_lt {width : Nat} (positive : 0 < width) (small : width < countBound) :
    ceilDiv defaultWavefrontSize width * width < countBound := by
  have least := (isLeast_ceilDiv_mul defaultWavefrontSize positive).2
  rcases Nat.lt_or_ge width defaultWavefrontSize with narrow | wide
  · have multiple : ceilDiv defaultWavefrontSize width * width ≤ defaultWavefrontSize * width :=
      least ⟨Nat.le_mul_of_pos_right _ positive, Nat.dvd_mul_left ..⟩
    simp only [defaultWavefrontSize, countBound] at narrow multiple ⊢
    omega
  · exact (least ⟨wide, Nat.dvd_refl width⟩).trans_lt small

namespace DeviceConfig

variable {config : DeviceConfig} {units lanes : Nat}

/-! ## Validation -/

/-- A configuration is valid, or it is refused for a reason. -/
theorem validate_cases (config : DeviceConfig) :
    config.validate = .ok () ∨ ∃ reason, config.validate = .error (.invalidConfig reason) := by
  unfold validate
  split
  · exact .inr ⟨_, rfl⟩
  split
  · exact .inr ⟨_, rfl⟩
  split
  · exact .inr ⟨_, rfl⟩
  split
  · exact .inr ⟨_, rfl⟩
  · exact .inl rfl

theorem validate_of_pos (some_unit : 0 < config.computeUnits) (some_lane : 0 < config.streamCores)
    (sized : 0 < config.wavefrontSize) (whole : config.streamCores ∣ config.wavefrontSize)
    (some_item : 0 < config.maxGroupSize) : config.validate = .ok () := by
  have rest := Nat.mod_eq_zero_of_dvd whole
  rw [validate, if_neg (by omega), if_neg (by omega), if_neg (by omega), if_neg (by omega)]
  rfl

/-- The default size, rounded up to whole turns of the lanes, is a valid one. -/
theorem validate_ceilDiv (some_unit : 0 < units) (some_lane : 0 < lanes) :
    validate {
      computeUnits := units
      streamCores := lanes
      wavefrontSize := ceilDiv defaultWavefrontSize lanes * lanes } = .ok () := by
  obtain ⟨large, whole⟩ := (isLeast_ceilDiv_mul defaultWavefrontSize some_lane).1
  have default_pos : 0 < defaultWavefrontSize := by decide
  exact validate_of_pos some_unit some_lane (default_pos.trans_le large) whole
    (show 0 < 256 by decide)

/-! ## The configuration -/

/-- There is nothing to divide by where the low bits of a positive number are all zero. -/
theorem laneWord_max_eq_zero_iff : laneWord (max lanes 1) = 0 ↔ 0 < lanes ∧ countBound ∣ lanes := by
  rw [laneWord, ← Nat.dvd_iff_mod_eq_zero]
  rcases Nat.eq_zero_or_pos lanes with rfl | positive
  · exact ⟨fun divides => absurd divides (by decide), fun given => absurd given.1 (by decide)⟩
  · rw [Nat.max_eq_left positive]
    exact (and_iff_right positive).symm

theorem ofUnits?_of_dvd (positive : 0 < lanes) (multiple : countBound ∣ lanes) :
    ofUnits? units lanes = none := by
  rw [ofUnits?]
  exact if_pos (laneWord_max_eq_zero_iff.mpr ⟨positive, multiple⟩)

/-- A word is its own low bits. -/
theorem ofUnits?_of_lt (positive : 0 < lanes) (small : lanes < countBound) :
    ofUnits? units lanes = some {
      computeUnits := units
      streamCores := lanes
      wavefrontSize := ceilDiv defaultWavefrontSize lanes * lanes } := by
  simp only [ofUnits?, laneWord_max_of_lt positive small]
  exact if_neg (Nat.ne_of_gt positive)

/-- Whatever the number of lanes, the size of a wavefront is a word. -/
theorem wavefrontSize_of_ofUnits? (given : ofUnits? units lanes = some config) :
    config.wavefrontSize < countBound := by
  simp only [ofUnits?, Option.ite_none_left_eq_some, Option.some.injEq] at given
  obtain ⟨nonzero, rfl⟩ := given
  exact ceilDiv_default_mul_lt (Nat.pos_of_ne_zero nonzero) (Nat.mod_lt _ (by decide))

/-- A configuration is given unless there is nothing to divide by. -/
theorem exists_ofUnits? (units : Nat) (other : ¬(0 < lanes ∧ countBound ∣ lanes)) :
    ∃ config, ofUnits? units lanes = some config ∧ config.computeUnits = units ∧
      config.streamCores = lanes :=
  ⟨_, if_neg (mt laneWord_max_eq_zero_iff.mp other), rfl, rfl⟩

end DeviceConfig

/-! ## The device -/

namespace Device

variable {id units lanes : Nat} {config : DeviceConfig}

theorem create_of_valid (id : Nat) (valid : config.validate = .ok ()) :
    ∃ device, create id config = .ok device ∧ device.config = config := by
  obtain ⟨device, built⟩ : ∃ device, create id config = .ok device := by
    rw [create, build, valid]
    exact ⟨_, rfl⟩
  obtain ⟨-, rfl⟩ := build_eq_ok built
  exact ⟨_, built, rfl⟩

theorem create_of_refused {e : Error} (refused : config.validate = .error e) :
    create id config = .error e := by
  rw [create, build, refused]
  rfl

theorem ofUnits_of_some (given : DeviceConfig.ofUnits? units lanes = some config) :
    ofUnits id units lanes = create id config := by
  rw [ofUnits, given]

/-- Whatever the numbers of units and of lanes: where the low bits of the number of lanes are all
zero, building the device fails with a fault. Otherwise there is a device exactly if there are units
and lanes, and no more lanes than a word can count. Its wavefronts have the least size that is a
multiple of the lanes and not below the default. Everything else is refused as a configuration. The
size of a wavefront is a word whatever comes of it. -/
theorem ofUnits_eq (id units lanes : Nat) :
    (if 0 < lanes ∧ countBound ∣ lanes then
      ofUnits id units lanes = .error (.fault .zeroDivisor)
    else if 1 ≤ units ∧ 1 ≤ lanes ∧ lanes < countBound then
      ∃ device size, ofUnits id units lanes = .ok device ∧
        device.config = { computeUnits := units, streamCores := lanes, wavefrontSize := size } ∧
        IsLeast {n | defaultWavefrontSize ≤ n ∧ lanes ∣ n} size ∧
        device.config.validate = .ok ()
    else ∃ reason, ofUnits id units lanes = .error (.invalidConfig reason)) ∧
    ∀ config, DeviceConfig.ofUnits? units lanes = some config →
      config.wavefrontSize < countBound := by
  refine ⟨?_, fun config => DeviceConfig.wavefrontSize_of_ofUnits?⟩
  split
  next zero =>
    rw [ofUnits, DeviceConfig.ofUnits?_of_dvd zero.1 zero.2]
    rfl
  next nonzero =>
    split
    next inside =>
      obtain ⟨some_unit, some_lane, small⟩ := inside
      have valid := DeviceConfig.validate_ceilDiv some_unit some_lane
      obtain ⟨device, built, same⟩ := create_of_valid id valid
      rw [← ofUnits_of_some (DeviceConfig.ofUnits?_of_lt some_lane small)] at built
      exact ⟨device, _, built, same, isLeast_ceilDiv_mul _ some_lane, same ▸ valid⟩
    next outside =>
      obtain ⟨config, given, rfl, rfl⟩ := DeviceConfig.exists_ofUnits? units nonzero
      have small := DeviceConfig.wavefrontSize_of_ofUnits? given
      rw [ofUnits_of_some given]
      rcases config.validate_cases with valid | ⟨reason, refused⟩
      · -- more lanes than a word can count do not divide a word
        obtain ⟨some_unit, some_lane, -⟩ := DeviceConfig.validate_eq_ok valid
        exact absurd ⟨some_unit, some_lane, DeviceConfig.streamCores_lt valid small⟩ outside
      · exact ⟨reason, create_of_refused refused⟩

/-- With 24 lanes a wavefront has 72 items. One lane more than there are words is refused, although
its low bits are those of one lane. -/
theorem ofUnits_eq_of_24_lanes :
    (∃ device, ofUnits 0 2 24 = .ok device ∧ device.config.wavefrontSize = 72 ∧
      IsLeast {n | 64 ≤ n ∧ 24 ∣ n} 72) ∧
    (∃ reason, ofUnits 0 2 4294967297 = .error (.invalidConfig reason)) ∧
    ∃ config, DeviceConfig.ofUnits? 2 4294967297 = some config ∧
      config.wavefrontSize < countBound := by
  obtain ⟨few, -⟩ := ofUnits_eq 0 2 24
  obtain ⟨many, word⟩ := ofUnits_eq 0 2 4294967297
  rw [if_neg (by decide), if_pos (by decide)] at few
  rw [if_neg (by decide), if_neg (by decide)] at many
  obtain ⟨device, size, built, same, least, -⟩ := few
  obtain rfl : size = 72 := by
    have known : ofUnits 0 2 24 = .ok _ := rfl
    cases known.symm.trans built
    exact (congrArg DeviceConfig.wavefrontSize same).symm
  exact ⟨⟨device, built, congrArg DeviceConfig.wavefrontSize same, least⟩, many, _, rfl, word _ rfl⟩

/-- One unit with as many lanes as there are words ends in a fault, and is not refused. -/
theorem ofUnits_faults :
    ofUnits 0 1 4294967296 = .error (.fault .zeroDivisor) ∧
      ¬∃ reason, ofUnits 0 1 4294967296 = .error (.invalidConfig reason) := by
  have fault : ofUnits 0 1 4294967296 = .error (.fault .zeroDivisor) := rfl
  refine ⟨fault, fun ⟨reason, refused⟩ => ?_⟩
  cases fault.symm.trans refused

end Device

end Accelerator
