import AvroCodec.Go.Time

namespace AvroCodec.Native

open AvroCodec.Go

/-! The date and time codecs of `codec_native.go`, on the values they read and
write: `Decode` is given the `int` or `long` the reader returned, `Encode`
returns the one it hands to the writer. -/

/-- `dateCodec.Decode`: `time.Unix(0, int64(i)*int64(24*time.Hour)).UTC()`. -/
def dateDecode (i : Int) : Time := (time.unix 0 (wrap 64 (i * 86400000000000))).utc

/-- `dateCodec.Encode`: `int32(t.UnixNano() / int64(24*time.Hour))`. -/
def dateEncode (t : Time) : Int := wrap 32 (t.unixNano.tdiv 86400000000000)

/-- The shared body of the timestamp codecs' `Decode`, with `unit` wire units
per second and `scale` nanoseconds per unit. -/
def timestampDecode (unit scale : Int) (i : Int) : Time :=
  let sec := i.tdiv unit
  let nsec := (i - sec * unit) * scale
  (time.unix sec nsec).utc

/-- The shared body of the timestamp codecs' `Encode`:
`t.Unix()*unit + int64(t.Nanosecond()/scale)`, whose operations wrap. -/
def timestampEncode (unit scale : Int) (t : Time) : Int :=
  wrap 64 (t.unix * unit + t.nanosecond.tdiv scale)

def timestampMillisDecode (i : Int) : Time := timestampDecode 1000 1000000 i

def timestampMillisEncode (t : Time) : Int := timestampEncode 1000 1000000 t

def timestampMicrosDecode (i : Int) : Time := timestampDecode 1000000 1000 i

def timestampMicrosEncode (t : Time) : Int := timestampEncode 1000000 1000 t

/-- `timeMillisCodec.Decode`: `time.Duration(i) * time.Millisecond`. -/
def timeMillisDecode (i : Int) : Int := wrap 64 (i * 1000000)

/-- `timeMillisCodec.Encode`: `int32(d.Nanoseconds() / int64(time.Millisecond))`. -/
def timeMillisEncode (d : Int) : Int := wrap 32 (d.tdiv 1000000)

/-- `timeMicrosCodec.Decode`: `time.Duration(i) * time.Microsecond`. -/
def timeMicrosDecode (i : Int) : Int := wrap 64 (i * 1000)

/-- `timeMicrosCodec.Encode`: `d.Nanoseconds() / int64(time.Microsecond)`. -/
def timeMicrosEncode (d : Int) : Int := d.tdiv 1000

theorem timeMicrosDecode_encode {d : Int} (hd : InRange 64 d) :
    timeMicrosDecode (timeMicrosEncode d) = d.tdiv 1000 * 1000 := by
  have hrange : InRange 64 (d.tdiv 1000 * 1000) := by
    unfold InRange at *
    rw [tdiv_eq_ite (by decide)]
    split <;> omega
  rw [timeMicrosEncode, timeMicrosDecode, wrap_of_inRange (by decide) hrange]

/-! `dateCodec` computes in nanoseconds: its day counts are exact only while the
day's nanoseconds fit in an `int64`, within 106751 days of the epoch, and its
`Encode` divides with Go's truncating `/`. -/

theorem dateDecode_spec {d : Int} (hd : -106751 ≤ d ∧ d ≤ 106751) :
    (dateDecode d).loc = .utcLoc ∧
      (dateDecode d).epochNanos = d * 86400 * 1000000000 ∧
      dateEncode (dateDecode d) = d := by
  have hnanos : InRange 64 (d * 86400000000000) := by unfold InRange; omega
  have hsec := @time.unix_sec 0 _ (by decide) hnanos
  have hepoch := @time.unix_epochNanos 0 _ (by decide) hnanos
  have hday : (dateDecode d).epochNanos = d * 86400 * 1000000000 := by
    rw [dateDecode, wrap_of_inRange (by decide) hnanos, Time.utc_epochNanos, hepoch]
    ring
  refine ⟨rfl, hday, ?_⟩
  rw [dateEncode, Time.unixNano_eq (by
      rw [dateDecode, wrap_of_inRange (by decide) hnanos, Time.utc_sec, hsec]
      unfold InRange
      omega) (by rw [hday]; unfold InRange; omega), hday]
  have hdays : (d * 86400 * 1000000000).tdiv 86400000000000 = d := by
    rw [tdiv_eq_ite (by decide)]
    split <;> omega
  rw [hdays]
  exact wrap_of_inRange (by decide) (by unfold InRange; omega)

-- Day 18263 is 2020-01-02 in UTC, as `TestReader_ReadNext` expects.
example : (dateDecode 18263).epochNanos = 1577923200 * 1000000000 := by decide

theorem dateDecode_overflow :
    (dateDecode 106752).epochNanos = -9223371273709551616 ∧
      dateEncode (dateDecode 106752) = -106751 := by
  decide

theorem dateEncode_eq {t : Time} (hnanos : InRange 64 t.epochNanos) :
    dateEncode t = wrap 32 (t.epochNanos.tdiv 86400000000000) := by
  have hsec : InRange 64 (t.sec - unixToInternal) := by
    have := t.nsec_lt
    unfold InRange Time.epochNanos at *
    omega
  rw [dateEncode, Time.unixNano_eq hsec hnanos]

theorem dateEncode_of_inRange {t : Time} (hnanos : InRange 64 t.epochNanos) :
    dateEncode t = t.epochNanos.tdiv 86400000000000 ∧
      -106751 ≤ t.epochNanos.tdiv 86400000000000 ∧ t.epochNanos.tdiv 86400000000000 ≤ 106751 := by
  have hdays : -106751 ≤ t.epochNanos.tdiv 86400000000000 ∧
      t.epochNanos.tdiv 86400000000000 ≤ 106751 := by
    unfold InRange at hnanos
    rw [tdiv_eq_ite (by decide)]
    split <;> omega
  refine ⟨?_, hdays⟩
  rw [dateEncode_eq hnanos, wrap_of_inRange (by decide) (by unfold InRange; omega)]

theorem dateEncode_before_epoch :
    dateEncode (time.unix (-43200) 0).utc = 0 ∧
      (time.unix (-43200) 0).utc.epochNanos / 86400000000000 = -1 := by
  decide

def TimestampUnit (unit scale : Int) : Prop :=
  (unit = 1000 ∧ scale = 1000000) ∨ (unit = 1000000 ∧ scale = 1000)

variable {unit scale : Int}

theorem TimestampUnit.scale_pos (hcodec : TimestampUnit unit scale) : 0 < scale := by
  rcases hcodec with ⟨-, rfl⟩ | ⟨-, rfl⟩ <;> decide

private theorem timestampDecode_arith (hcodec : TimestampUnit unit scale) {i : Int}
    (hi : InRange 64 i) :
    let sec := i.tdiv unit
    let nsec := (i - sec * unit) * scale
    (-2 ^ 62 ≤ sec ∧ sec ≤ 2 ^ 62) ∧ InRange 64 nsec ∧
      sec * 1000000000 + nsec = i * scale ∧
      InRange 64 (sec + nsec / 1000000000) ∧
      (sec + nsec / 1000000000) * unit + nsec % 1000000000 / scale = i := by
  intro sec nsec
  unfold InRange at *
  rcases hcodec with ⟨rfl, rfl⟩ | ⟨rfl, rfl⟩ <;> simp only [sec, nsec] <;>
    rw [tdiv_eq_ite (by decide)] <;> split <;> omega

theorem timestampDecode_spec (hcodec : TimestampUnit unit scale) {i : Int}
    (hi : InRange 64 i) :
    (timestampDecode unit scale i).loc = .utcLoc ∧
      (timestampDecode unit scale i).epochNanos = i * scale ∧
      timestampEncode unit scale (timestampDecode unit scale i) = i := by
  obtain ⟨hsec, hnsec, hnanos, hunix, hencode⟩ := timestampDecode_arith hcodec hi
  have htsec : (timestampDecode unit scale i).sec = i.tdiv unit +
      (i - i.tdiv unit * unit) * scale / 1000000000 + unixToInternal := time.unix_sec hsec hnsec
  have htnsec : ((timestampDecode unit scale i).nsec : Int) =
      (i - i.tdiv unit * unit) * scale % 1000000000 := time.unix_nsec _ _
  refine ⟨rfl, ?_, ?_⟩
  · simp only [timestampDecode, Time.utc_epochNanos, time.unix_epochNanos hsec hnsec, hnanos]
  · rw [timestampEncode, Time.unix, Time.unixSec_eq (by rw [htsec, add_sub_cancel_right]; exact hunix),
      htsec, add_sub_cancel_right, Time.nanosecond,
      Int.tdiv_eq_ediv (Int.ofNat_nonneg _) hcodec.scale_pos.le, htnsec, hencode]
    exact wrap_of_inRange (by decide) hi

private theorem timestampEncode_arith (hcodec : TimestampUnit unit scale) (t : Time)
    (ht : InRange 64 (t.epochNanos / scale)) :
    InRange 64 (t.sec - unixToInternal) ∧
      (t.sec - unixToInternal) * unit + (t.nsec : Int) / scale = t.epochNanos / scale ∧
      t.epochNanos / scale * scale = (t.roundDown scale.toNat).epochNanos := by
  have hnsec := t.nsec_lt
  rw [Time.epochNanos_roundDown]
  unfold InRange Time.epochNanos at *
  rcases hcodec with ⟨rfl, rfl⟩ | ⟨rfl, rfl⟩ <;> simp only [Int.reduceToNat] <;> omega

theorem timestampEncode_spec (hcodec : TimestampUnit unit scale) (t : Time)
    (ht : InRange 64 (t.epochNanos / scale)) :
    timestampEncode unit scale t = t.epochNanos / scale ∧
      timestampDecode unit scale (timestampEncode unit scale t) =
        (t.roundDown scale.toNat).utc := by
  obtain ⟨hsec, hcount, hround⟩ := timestampEncode_arith hcodec t ht
  have hencode : timestampEncode unit scale t = t.epochNanos / scale := by
    rw [timestampEncode, Time.unix, Time.unixSec_eq hsec, Time.nanosecond,
      Int.tdiv_eq_ediv (Int.ofNat_nonneg _) hcodec.scale_pos.le, hcount]
    exact wrap_of_inRange (by decide) ht
  obtain ⟨hloc, hnanos, -⟩ := timestampDecode_spec hcodec (hencode ▸ ht)
  refine ⟨hencode, Time.eq_of_epochNanos (by rw [hloc]; rfl) ?_⟩
  rw [hnanos, hencode, hround, Time.utc_epochNanos]

theorem timestamp_codecs_inverse :
    (∀ i, InRange 64 i →
      (timestampMillisDecode i).loc = .utcLoc ∧
        (timestampMillisDecode i).epochNanos = i * 1000000 ∧
        timestampMillisEncode (timestampMillisDecode i) = i) ∧
    (∀ t : Time, InRange 64 (t.epochNanos / 1000000) →
      timestampMillisEncode t = t.epochNanos / 1000000 ∧
        timestampMillisDecode (timestampMillisEncode t) = (t.roundDown 1000000).utc) ∧
    (∀ i, InRange 64 i →
      (timestampMicrosDecode i).loc = .utcLoc ∧
        (timestampMicrosDecode i).epochNanos = i * 1000 ∧
        timestampMicrosEncode (timestampMicrosDecode i) = i) ∧
    (∀ t : Time, InRange 64 (t.epochNanos / 1000) →
      timestampMicrosEncode t = t.epochNanos / 1000 ∧
        timestampMicrosDecode (timestampMicrosEncode t) = (t.roundDown 1000).utc) :=
  ⟨fun _ hi => timestampDecode_spec (.inl ⟨rfl, rfl⟩) hi,
    fun t ht => timestampEncode_spec (.inl ⟨rfl, rfl⟩) t ht,
    fun _ hi => timestampDecode_spec (.inr ⟨rfl, rfl⟩) hi,
    fun t ht => timestampEncode_spec (.inr ⟨rfl, rfl⟩) t ht⟩

theorem timestamp_codecs_inverse_at_extremes :
    InRange 64 (-2 ^ 63) ∧ timestampMillisEncode (timestampMillisDecode (-2 ^ 63)) = -2 ^ 63 ∧
      InRange 64 (2 ^ 63 - 1) ∧
      timestampMicrosEncode (timestampMicrosDecode (2 ^ 63 - 1)) = 2 ^ 63 - 1 :=
  ⟨by decide, (timestamp_codecs_inverse.1 _ (by decide)).2.2, by decide,
    (timestamp_codecs_inverse.2.2.1 _ (by decide)).2.2⟩

end AvroCodec.Native
