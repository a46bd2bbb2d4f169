import KS10.Micro.Straight

/-!
# The microcode

The words of the control ROM that start the processor, and those that execute the instructions
IMUL, MUL, IDIV, DIV, LSHC, ROTC and ASHC.  A machine over these words may be started anywhere.
-/

namespace KS10

open Clocked

namespace Micro

/-- The words of the listing, by their addresses. -/
def microcode : List (MicroAddr × Microword) :=
  [ (0o0000, 0o0002_3771_0012_4374_4007_0700_0000_0037_7777),
    (0o0002, 0o0013_3445_1212_4174_4007_0700_0000_0000_0000),
    (0o0013, 0o0053_3551_1212_4374_4007_0700_0000_0000_0001),
    (0o0021, 0o3017_3446_0606_4174_4007_0700_0010_0000_0000),
    (0o0025, 0o1214_3333_0004_4174_4007_0621_0000_0000_0000),
    (0o0031, 0o3017_3446_0606_4174_4007_0700_0010_0000_0000),
    (0o0035, 0o2777_3445_0403_4174_4007_0700_0000_0000_0000),
    (0o0044, 0o0000_3333_0003_4174_4001_2530_3000_0041_5777),
    (0o0045, 0o0416_3772_0000_1275_5007_0701_0000_0000_1441),
    (0o0053, 0o0061_3447_1200_4174_4007_0700_0000_0000_0000),
    (0o0061, 0o0071_3771_0015_4374_4007_0700_0000_0000_0001),
    (0o0071, 0o0003_4751_1207_4374_4007_0700_0010_0000_0001),
    (0o0122, 0o0122_3336_0604_4174_4046_2630_2000_0060_0000),
    (0o0123, 0o0004_3334_0604_4174_4004_1700_0000_0000_0000),
    (0o0126, 0o0142_1116_0604_4174_4046_2630_6000_0060_0000),
    (0o0127, 0o0004_1114_0604_4174_4004_1700_4000_0000_0000),
    (0o0142, 0o0122_0116_0604_4174_4046_2630_2000_0060_0000),
    (0o0143, 0o0004_0114_0604_4174_4004_1700_0000_0000_0000),
    (0o0146, 0o0142_3336_0604_4174_4046_2630_2000_0060_0000),
    (0o0147, 0o0004_3334_0604_4174_4004_1700_0000_0000_0000),
    (0o0160, 0o1234_7443_0300_4174_4007_0621_0000_0000_0000),
    (0o0161, 0o0164_3333_0005_4174_4007_0621_0000_0000_0000),
    (0o0164, 0o0370_4443_0000_4174_4007_0700_2010_0071_0042),
    (0o0165, 0o0555_4443_0000_4174_4467_0700_0000_0051_1000),
    (0o0166, 0o1215_3441_0304_4174_4007_0700_0000_0000_0000),
    (0o0330, 0o1236_3333_0005_4174_4007_0520_0000_0000_0000),
    (0o0331, 0o3110_4551_0404_4374_0007_0700_0010_0037_7777),
    (0o0333, 0o1236_3333_0005_4174_4007_0520_0000_0000_0000),
    (0o0370, 0o3062_4662_0000_4374_0007_0700_0010_0037_7777),
    (0o0374, 0o0002_4443_0000_4174_4004_1700_0000_0000_0000),
    (0o0375, 0o0002_2222_0000_4174_4004_1700_4000_0000_0000),
    (0o0376, 0o0377_2222_0000_4174_4007_0700_4000_0000_0000),
    (0o0377, 0o0002_2441_0303_4174_4004_1700_4000_0000_0000),
    (0o0416, 0o0431_3776_0005_0274_4007_0701_0000_0000_0000),
    (0o0431, 0o0044_3446_0505_4174_4007_0700_0000_0000_0000),
    (0o0534, 0o0534_3446_0505_4174_4057_0630_2000_0060_0000),
    (0o0535, 0o1014_3444_0505_4174_4007_0700_0000_0000_0000),
    (0o0544, 0o0544_3444_0505_4174_4057_0630_2000_0060_0000),
    (0o0545, 0o1014_3444_0505_4174_4007_0700_0000_0000_0000),
    (0o0554, 0o1046_3772_0000_1275_5007_0701_0000_0000_1441),
    (0o0602, 0o0624_3447_0505_4174_4007_0700_2000_0041_1776),
    (0o0603, 0o0614_3447_0505_4174_4007_0700_2000_0031_1776),
    (0o0614, 0o0614_3446_0505_4174_4047_0630_2000_0060_0000),
    (0o0615, 0o1053_3444_0505_4174_4047_0700_0000_0000_0000),
    (0o0624, 0o0624_3444_0505_4174_4447_0630_2000_0060_0000),
    (0o0625, 0o1053_3444_0505_4174_4447_0700_0000_0000_0000),
    (0o0634, 0o1064_4662_0000_4374_0007_0700_0000_0037_7777),
    (0o0635, 0o1064_3662_0000_4374_0007_0700_0000_0040_0000),
    (0o0642, 0o0642_3446_0505_4174_4077_0630_2000_0060_0000),
    (0o0643, 0o1014_3444_0505_4174_4007_0700_0000_0000_0000),
    (0o0644, 0o0644_3444_0505_4174_4077_0630_2000_0060_0000),
    (0o0645, 0o1014_3444_0505_4174_4007_0700_0000_0000_0000),
    (0o1006, 0o0534_4443_0000_4174_4007_0630_2000_0060_0000),
    (0o1014, 0o1026_3444_0505_4174_4007_0700_0000_0000_0000),
    (0o1046, 0o0602_3776_0005_0274_4007_0631_0000_0000_0000),
    (0o1053, 0o0634_0113_0505_0174_4007_0521_0400_0000_0000),
    (0o1077, 0o0642_4443_0000_4174_4007_0630_2000_0060_0000),
    (0o1214, 0o2774_3445_0404_4174_4007_0700_0000_0000_0000),
    (0o1215, 0o1500_3221_0003_4174_4003_7700_0200_0003_0001),
    (0o1216, 0o1220_3770_0404_4174_0007_0520_0000_0000_0000),
    (0o1217, 0o1500_7001_0003_4174_4003_7700_0200_0003_0001),
    (0o1220, 0o1404_3221_0003_4174_4467_0700_0000_0041_1000),
    (0o1221, 0o1404_7001_0003_4174_4467_0700_0000_0041_1000),
    (0o1222, 0o1500_4001_0004_4174_4003_7700_0200_0003_0001),
    (0o1223, 0o1224_4113_0616_4174_4007_0520_0000_0000_0000),
    (0o1224, 0o1500_7001_0004_4174_4003_7700_0200_0003_0001),
    (0o1225, 0o1404_7001_0004_4174_4467_0700_0000_0041_1000),
    (0o1232, 0o0161_4221_0003_4174_4007_0700_0000_0000_0000),
    (0o1233, 0o0161_2441_0703_4174_4007_0700_4000_0000_0000),
    (0o1234, 0o3026_3441_0306_4174_4007_0700_0000_0000_0000),
    (0o1236, 0o1240_2113_0305_4174_4007_0521_4000_0000_0000),
    (0o1237, 0o1240_0113_0305_4174_4007_0521_0000_0000_0000),
    (0o1240, 0o0555_4443_0000_4174_4467_0700_0000_0051_1000),
    (0o1241, 0o0161_3441_0603_4174_4007_0700_0000_0000_0000),
    (0o1270, 0o3064_4221_0004_4174_4007_0700_0000_0000_0000),
    (0o1271, 0o1272_2222_0000_4174_4007_0621_4000_0000_0000),
    (0o1272, 0o3063_7441_0303_4174_4007_0700_0000_0000_0000),
    (0o1273, 0o3063_2441_0303_4174_4007_0700_4000_0000_0000),
    (0o1274, 0o3066_3446_0303_4174_4007_0700_0000_0000_0000),
    (0o1275, 0o3065_2441_0505_4174_4007_0700_4000_0000_0000),
    (0o1276, 0o1276_0114_0503_4174_4067_0630_2100_0060_0000),
    (0o1277, 0o3072_3444_1717_4174_4067_0700_0100_0000_0000),
    (0o1300, 0o3073_3444_0303_4174_4007_0700_0000_0000_0000),
    (0o1301, 0o1300_0111_0503_4174_4007_0700_0000_0000_0000),
    (0o1316, 0o2240_7441_0303_4174_4007_0700_0000_0000_0000),
    (0o1317, 0o2240_2441_0303_4174_4007_0700_4000_0000_0000),
    (0o1404, 0o1500_4443_0000_4174_4003_7700_0200_0003_0001),
    (0o1464, 0o0544_4443_0000_4174_4007_0630_2000_0060_0000),
    (0o1465, 0o1006_3333_0003_4174_4007_0700_2000_0031_5777),
    (0o1466, 0o0554_3333_0003_4174_4007_0330_3000_0041_4000),
    (0o1470, 0o0644_4443_0000_4174_4007_0630_2000_0060_0000),
    (0o1471, 0o1077_3333_0003_4174_4007_0700_2000_0031_5777),
    (0o1571, 0o2775_3442_0300_0174_4007_0700_0000_0000_0000),
    (0o1600, 0o3022_3441_0305_0174_4007_0700_0000_0000_0000),
    (0o1601, 0o3023_3441_0305_4174_4007_0700_0000_0000_0000),
    (0o1641, 0o2773_3441_0306_0174_4007_0700_0000_0000_0000),
    (0o2240, 0o0002_4551_0404_4374_0004_1700_0000_0037_7777),
    (0o2773, 0o0021_3772_0000_0275_5007_0700_2000_0071_0043),
    (0o2774, 0o1216_5113_0412_4174_4007_0621_0000_0000_0000),
    (0o2775, 0o2776_3441_0316_4174_4007_0700_0000_0000_0000),
    (0o2776, 0o0031_3771_0006_0276_6007_0700_2000_0071_0043),
    (0o2777, 0o1222_3770_0303_4174_0007_0520_0000_0000_0000),
    (0o3017, 0o3020_3446_0606_4174_4007_0700_0000_0000_0000),
    (0o3020, 0o0122_4226_0004_4174_4007_0630_2000_0060_0000),
    (0o3021, 0o0122_3446_1200_4174_4007_0630_2000_0060_0000),
    (0o3022, 0o1232_3772_0000_0275_5007_0520_0000_0000_0000),
    (0o3023, 0o3024_3771_0003_0276_6007_0700_0000_0000_0000),
    (0o3024, 0o3025_3772_0000_1275_5007_0701_0000_0000_1441),
    (0o3025, 0o0160_3333_0003_4174_4007_0621_0000_0000_0000),
    (0o3026, 0o3027_3221_0004_4174_4007_0700_0000_0000_0000),
    (0o3027, 0o0330_3333_0003_4174_4007_0520_0000_0000_0000),
    (0o3062, 0o1270_3333_0003_4174_4007_0520_0000_0000_0000),
    (0o3063, 0o3064_3771_0004_4374_4007_0700_0000_0010_0000),
    (0o3064, 0o1274_3333_0005_4174_4007_0520_0000_0000_0000),
    (0o3065, 0o1274_3551_0404_4374_4007_0700_0000_0004_0000),
    (0o3066, 0o3067_3447_0303_4174_4007_0700_0000_0000_0000),
    (0o3067, 0o3070_3447_0505_4174_4007_0700_0000_0000_0000),
    (0o3070, 0o3071_3447_0505_4174_4007_0700_0000_0000_0000),
    (0o3071, 0o1276_1114_0503_4174_4067_0630_6000_0060_0000),
    (0o3072, 0o1300_3447_0303_4174_4007_0520_0000_0000_0000),
    (0o3073, 0o3074_3444_0303_4174_4007_0700_0000_0000_0000),
    (0o3074, 0o3075_4002_1200_4174_4007_0700_0000_0000_0000),
    (0o3075, 0o0014_3333_0004_4174_4000_1701_0000_0000_0000),
    (0o3110, 0o1316_2441_0404_4174_4007_0621_4000_0000_0000) ]

/-- The control ROM, as far as it is listed. -/
def ks10Rom (a : MicroAddr) : Microword := (microcode.lookup a).getD 0

/-! ## A machine to start -/

/-- The constants in the registers, and the word `x` in AR. -/
def registers (x : BitVec 36) (u : BitVec 4) : BitVec 40 :=
  if u = ar then Alu.dd x
  else if u = mask then maskWord
  else if u = mag then magWord
  else Alu.dd 1

theorem constants_registers (x : BitVec 36) : Constants (registers x) where
  mask := rfl
  mag := rfl
  one := rfl

def pathOf (x : BitVec 36) : Path where
  alu := ⟨registers x, 0, false, false, false, false, false⟩
  scad := ⟨0, 0⟩
  pcFlags := .clear

/-- Inputs that never make the machine wait: the word `w` comes from the accumulators, and `drom`
from the dispatch ROM. -/
def steadyIn (w drom : BitVec 36) : In where
  busWAIT := false
  ramfile := w
  piREQPRI := 0
  vmaREG := 0
  aprFLAGS := 0
  timerCOUNT := 0
  cpuDATAI := 0
  useq := { (default : Useq.In) with drom := drom }

/-- The machine at the microword `pc` after `t` clocks. -/
def startAt (pc : MicroAddr) (x w drom : BitVec 36) (t : Nat) : Micro :=
  run (next ks10Rom) (start ks10Rom pc (pathOf x)) (fun _ => steadyIn w drom) t

theorem startAt_comes {pc : MicroAddr} {x w drom : BitVec 36} {K : View → Prop}
    (h : Comes (next ks10Rom) (steadyIn w drom).env.Meets Goes (Shows ks10Rom ⟨pc, [], pathOf x⟩)
      (Shown ks10Rom K)) : ∃ t, Shown ks10Rom K (startAt pc x w drom t) :=
  h _ _ (In.feeds ks10Rom _ rfl rfl) (shows_start ks10Rom pc (pathOf x))

end Micro

end KS10
