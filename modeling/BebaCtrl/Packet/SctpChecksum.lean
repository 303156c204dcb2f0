import BebaCtrl.Lib.Bytes

/-!
# The checksum of SCTP

`_checksum` divides a packet byte by byte with a table of 256 remainders. CRC-32C is defined bit by
bit. A bit step is linear in exclusive or, so the eight steps for a byte are those of the low byte
of the remainder, which are in the table, and a shift of the rest.

The loop is over the characters of `str(data)`, which are the bytes of `data` on Python 2.
-/

namespace BebaCtrl.Sctp

open List

def crcC : List Nat :=
  [0x00000000, 0xF26B8303, 0xE13B70F7, 0x1350F3F4, 0xC79A971F, 0x35F1141C, 0x26A1E7E8, 0xD4CA64EB,
   0x8AD958CF, 0x78B2DBCC, 0x6BE22838, 0x9989AB3B, 0x4D43CFD0, 0xBF284CD3, 0xAC78BF27, 0x5E133C24,
   0x105EC76F, 0xE235446C, 0xF165B798, 0x030E349B, 0xD7C45070, 0x25AFD373, 0x36FF2087, 0xC494A384,
   0x9A879FA0, 0x68EC1CA3, 0x7BBCEF57, 0x89D76C54, 0x5D1D08BF, 0xAF768BBC, 0xBC267848, 0x4E4DFB4B,
   0x20BD8EDE, 0xD2D60DDD, 0xC186FE29, 0x33ED7D2A, 0xE72719C1, 0x154C9AC2, 0x061C6936, 0xF477EA35,
   0xAA64D611, 0x580F5512, 0x4B5FA6E6, 0xB93425E5, 0x6DFE410E, 0x9F95C20D, 0x8CC531F9, 0x7EAEB2FA,
   0x30E349B1, 0xC288CAB2, 0xD1D83946, 0x23B3BA45, 0xF779DEAE, 0x05125DAD, 0x1642AE59, 0xE4292D5A,
   0xBA3A117E, 0x4851927D, 0x5B016189, 0xA96AE28A, 0x7DA08661, 0x8FCB0562, 0x9C9BF696, 0x6EF07595,
   0x417B1DBC, 0xB3109EBF, 0xA0406D4B, 0x522BEE48, 0x86E18AA3, 0x748A09A0, 0x67DAFA54, 0x95B17957,
   0xCBA24573, 0x39C9C670, 0x2A993584, 0xD8F2B687, 0x0C38D26C, 0xFE53516F, 0xED03A29B, 0x1F682198,
   0x5125DAD3, 0xA34E59D0, 0xB01EAA24, 0x42752927, 0x96BF4DCC, 0x64D4CECF, 0x77843D3B, 0x85EFBE38,
   0xDBFC821C, 0x2997011F, 0x3AC7F2EB, 0xC8AC71E8, 0x1C661503, 0xEE0D9600, 0xFD5D65F4, 0x0F36E6F7,
   0x61C69362, 0x93AD1061, 0x80FDE395, 0x72966096, 0xA65C047D, 0x5437877E, 0x4767748A, 0xB50CF789,
   0xEB1FCBAD, 0x197448AE, 0x0A24BB5A, 0xF84F3859, 0x2C855CB2, 0xDEEEDFB1, 0xCDBE2C45, 0x3FD5AF46,
   0x7198540D, 0x83F3D70E, 0x90A324FA, 0x62C8A7F9, 0xB602C312, 0x44694011, 0x5739B3E5, 0xA55230E6,
   0xFB410CC2, 0x092A8FC1, 0x1A7A7C35, 0xE811FF36, 0x3CDB9BDD, 0xCEB018DE, 0xDDE0EB2A, 0x2F8B6829,
   0x82F63B78, 0x709DB87B, 0x63CD4B8F, 0x91A6C88C, 0x456CAC67, 0xB7072F64, 0xA457DC90, 0x563C5F93,
   0x082F63B7, 0xFA44E0B4, 0xE9141340, 0x1B7F9043, 0xCFB5F4A8, 0x3DDE77AB, 0x2E8E845F, 0xDCE5075C,
   0x92A8FC17, 0x60C37F14, 0x73938CE0, 0x81F80FE3, 0x55326B08, 0xA759E80B, 0xB4091BFF, 0x466298FC,
   0x1871A4D8, 0xEA1A27DB, 0xF94AD42F, 0x0B21572C, 0xDFEB33C7, 0x2D80B0C4, 0x3ED04330, 0xCCBBC033,
   0xA24BB5A6, 0x502036A5, 0x4370C551, 0xB11B4652, 0x65D122B9, 0x97BAA1BA, 0x84EA524E, 0x7681D14D,
   0x2892ED69, 0xDAF96E6A, 0xC9A99D9E, 0x3BC21E9D, 0xEF087A76, 0x1D63F975, 0x0E330A81, 0xFC588982,
   0xB21572C9, 0x407EF1CA, 0x532E023E, 0xA145813D, 0x758FE5D6, 0x87E466D5, 0x94B49521, 0x66DF1622,
   0x38CC2A06, 0xCAA7A905, 0xD9F75AF1, 0x2B9CD9F2, 0xFF56BD19, 0x0D3D3E1A, 0x1E6DCDEE, 0xEC064EED,
   0xC38D26C4, 0x31E6A5C7, 0x22B65633, 0xD0DDD530, 0x0417B1DB, 0xF67C32D8, 0xE52CC12C, 0x1747422F,
   0x49547E0B, 0xBB3FFD08, 0xA86F0EFC, 0x5A048DFF, 0x8ECEE914, 0x7CA56A17, 0x6FF599E3, 0x9D9E1AE0,
   0xD3D3E1AB, 0x21B862A8, 0x32E8915C, 0xC083125F, 0x144976B4, 0xE622F5B7, 0xF5720643, 0x07198540,
   0x590AB964, 0xAB613A67, 0xB831C993, 0x4A5A4A90, 0x9E902E7B, 0x6CFBAD78, 0x7FAB5E8C, 0x8DC0DD8F,
   0xE330A81A, 0x115B2B19, 0x020BD8ED, 0xF0605BEE, 0x24AA3F05, 0xD6C1BC06, 0xC5914FF2, 0x37FACCF1,
   0x69E9F0D5, 0x9B8273D6, 0x88D28022, 0x7AB90321, 0xAE7367CA, 0x5C18E4C9, 0x4F48173D, 0xBD23943E,
   0xF36E6F75, 0x0105EC76, 0x12551F82, 0xE03E9C81, 0x34F4F86A, 0xC69F7B69, 0xD5CF889D, 0x27A40B9E,
   0x79B737BA, 0x8BDCB4B9, 0x988C474D, 0x6AE7C44E, 0xBE2DA0A5, 0x4C4623A6, 0x5F16D052, 0xAD7D5351]

/-- The body of the loop over the bytes. -/
def tableStep (crc32 : Nat) (c : UInt8) : Nat :=
  (crc32 >>> 8) ^^^ crcC.getD ((crc32 ^^^ c.toNat) &&& 0xff) 0

def checksum (data : Bytes) : Nat :=
  let crc32 := data.foldl tableStep 0xffffffff
  -- `(~crc32) & 0xffffffff`
  let crc32 := 0xffffffff - (crc32 &&& 0xffffffff)
  -- packed as `<I`, unpacked as `>I`
  beDecode (beEncode 4 crc32).reverse

/-! ## CRC-32C -/

/-- One bit of the division by the reflected polynomial of Castagnoli. -/
def bitStep (crc : Nat) : Nat := (crc >>> 1) ^^^ if crc % 2 = 1 then 0x82F63B78 else 0

def byteStep (crc : Nat) (c : UInt8) : Nat := bitStep^[8] (crc ^^^ c.toNat)

def crc32c (data : Bytes) : Nat := data.foldl byteStep 0xffffffff ^^^ 0xffffffff

/-- The four bytes of a word in the opposite order. -/
def swapBytes (n : Nat) : Nat :=
  16777216 * (n % 256) + 65536 * (n / 256 % 256) + 256 * (n / 65536 % 256) + n / 16777216 % 256

theorem bitStep_xor (a b : Nat) : bitStep (a ^^^ b) = bitStep a ^^^ bitStep b := by
  have hlow : (a ^^^ b) % 2 = a % 2 ^^^ b % 2 := Nat.xor_mod_two_pow (n := 1)
  rw [bitStep, bitStep, bitStep, Nat.shiftRight_xor_distrib, hlow]
  rcases Nat.mod_two_eq_zero_or_one a with ha | ha <;>
    rcases Nat.mod_two_eq_zero_or_one b with hb | hb <;> rw [ha, hb] <;> grind

theorem iterate_bitStep_xor (n a b : Nat) :
    bitStep^[n] (a ^^^ b) = bitStep^[n] a ^^^ bitStep^[n] b := by
  induction n generalizing a b with
  | zero => rfl
  | succ n ih =>
    rw [Function.iterate_succ_apply, bitStep_xor, ih]
    rfl

/-- Zeros at the end are only shifted out. -/
theorem iterate_bitStep_shiftLeft (n a : Nat) : bitStep^[n] (a <<< n) = a := by
  induction n with
  | zero => rfl
  | succ n ih =>
    have hstep : bitStep (a <<< (n + 1)) = a <<< n := by
      simp [bitStep, Nat.shiftLeft_succ, Nat.shiftRight_one]
    rw [Function.iterate_succ_apply, hstep, ih]

theorem shiftLeft_shiftRight_xor (x : Nat) : (x >>> 8) <<< 8 ^^^ (x &&& 0xff) = x := by
  refine Nat.eq_of_testBit_eq fun i => ?_
  simp only [show 0xff = 2 ^ 8 - 1 by rfl, Nat.testBit_xor, Nat.testBit_and, Nat.testBit_shiftLeft,
    Nat.testBit_shiftRight, Nat.testBit_two_pow_sub_one]
  by_cases h : 8 ≤ i
  · simp [h, Nat.not_lt.2 h]
  · simp [h, Nat.lt_of_not_le h]

/-- The table has the remainders of all bytes. -/
theorem crcC_eq : crcC = (range 256).map bitStep^[8] := by
  decide +kernel

/-- One lookup is eight bit steps. -/
theorem tableStep_eq_byteStep (crc : Nat) (c : UInt8) : tableStep crc c = byteStep crc c := by
  set x := crc ^^^ c.toNat with hx
  have hhigh : crc >>> 8 = x >>> 8 := by
    rw [hx, Nat.shiftRight_xor_distrib, Nat.shiftRight_eq_zero _ _ c.toNat_lt, Nat.xor_zero]
  have hlow : crcC.getD (x &&& 0xff) 0 = bitStep^[8] (x &&& 0xff) := by
    have hlt : x &&& 0xff < 256 := Nat.lt_succ_of_le Nat.and_le_right
    simp [crcC_eq, hlt]
  calc tableStep crc c = x >>> 8 ^^^ bitStep^[8] (x &&& 0xff) := by
        rw [tableStep, ← hx, hhigh, hlow]
    _ = bitStep^[8] ((x >>> 8) <<< 8 ^^^ (x &&& 0xff)) := by
        rw [iterate_bitStep_xor, iterate_bitStep_shiftLeft]
    _ = byteStep crc c := by rw [shiftLeft_shiftRight_xor, byteStep]

theorem bitStep_lt {a : Nat} (h : a < 2 ^ 32) : bitStep a < 2 ^ 32 := by
  refine Nat.xor_lt_two_pow ?_ (by split <;> decide)
  omega

theorem foldl_byteStep_lt (data : Bytes) : data.foldl byteStep 0xffffffff < 2 ^ 32 := by
  refine foldlRecOn data byteStep (motive := (· < 2 ^ 32)) (by decide) ?_
  intro crc hcrc c _
  have hc := c.toNat_lt
  exact Function.Iterate.rec (· < 2 ^ 32) (Nat.xor_lt_two_pow hcrc (by omega))
    (fun _ => bitStep_lt) 8

/-- The complement of a word is an exclusive or. -/
theorem compl_eq_xor {a : Nat} (h : a < 2 ^ 32) :
    0xffffffff - (a &&& 0xffffffff) = a ^^^ 0xffffffff := by
  simp only [show 0xffffffff = 2 ^ 32 - 1 by rfl, Nat.and_two_pow_sub_one_of_lt_two_pow h]
  refine Nat.eq_of_testBit_eq fun i => ?_
  rw [Nat.sub_sub, Nat.add_comm, Nat.testBit_two_pow_sub_succ h, Nat.testBit_xor,
    Nat.testBit_two_pow_sub_one]
  by_cases hi : i < 32
  · simp [hi]
  · have ha : a.testBit i = false :=
      Nat.testBit_lt_two_pow (h.trans_le (Nat.pow_le_pow_right (by decide) (by omega)))
    simp [hi, ha]

/-- `_checksum` is CRC-32C with its bytes swapped. -/
theorem checksum_eq_swapBytes_crc32c (data : Bytes) : checksum data = swapBytes (crc32c data) := by
  have hstep : tableStep = byteStep := funext₂ tableStep_eq_byteStep
  rw [checksum, hstep, crc32c, ← compl_eq_xor (foldl_byteStep_lt data)]
  simp [swapBytes, beEncode, beDecode, Nat.div_div_eq_div_mul]
  omega

end BebaCtrl.Sctp
