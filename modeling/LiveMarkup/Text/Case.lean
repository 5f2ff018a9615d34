import LiveMarkup.Text.CharSet

/-!
# Upper and lower case

Full case mappings of the Unicode standard. Most characters map to one character at a fixed
distance, and such characters come in runs, most of them as capitals and small letters that map to
each other; a hundred or so map to several characters (`ß` to `SS`). Lower casing has one rule
that looks around: a capital sigma becomes the final form when a cased letter precedes it and none
follows, ignoring case-ignorable characters in between.
-/

namespace LiveMarkup.Text

/-- Characters that are mapped `shift` places on. They are given like a set of characters, by the
lengths of the runs outside and inside of it, where only every `step`-th code point from `start` on
is counted. -/
structure CaseRun where
  shift : Int
  runs : List Nat
  step : Nat := 1
  start : Nat := 0

namespace CaseRun

def covers (r : CaseRun) (n : Int) : Bool :=
  n % r.step == r.start && CharSet.reaches false r.runs (n / r.step).toNat

def ofShifts (shifts : List (Int × List Nat)) : List CaseRun :=
  shifts.map fun (shift, runs) => { shift, runs }

def map? (runs : List CaseRun) (c : Char) : Option Char :=
  (runs.find? fun r => r.covers c.toNat).map fun r : CaseRun =>
    Char.ofNat (c.toNat + r.shift).toNat

def mapBack? (runs : List CaseRun) (c : Char) : Option Char :=
  (runs.find? fun r => r.covers (c.toNat - r.shift)).map fun r : CaseRun =>
    Char.ofNat (c.toNat - r.shift).toNat

end CaseRun

/-- Capitals, mapped to the small letters that are mapped to them. -/
def pairRuns : List CaseRun := [
  { shift := 1, step := 2, runs := [128,24,1,3,9,23,5,2,9,1,3,3,3,1,5,1,1,1,16,9,2,1,1,20,1,9,9,5,
    144,2,1,1,48,12,5,1,50,17,4,27,8,48,3176,75,5,48,1712,1,8,1,6,50,7,1,15526,23,9,14,67,7,1,31,7,5,
    4,2,1,10,5,8,6,1,2,2] },
  { shift := 1, step := 2, start := 1, runs := [156,8,24,3,4,1,1,1,2,1,10,1,3,1,1,2,11,8,47,1,2,1,
    218,1,100,7,3674,1,1393,3,4,1,58,2,15685,2,7,1,29,2,21,1] },
  { shift := -8, step := 2, start := 1, runs := [4012,4] }] ++
  CaseRun.ofShifts [
  (32, [192,23,1,7,690,17,1,9,100,32,64241,26,6501,32,21888,32]), (-121, [376,1]), (210, [385,1]),
  (206, [390,1]), (205, [393,2,8,1]), (79, [398,1]), (202, [399,1]), (203, [400,1]), (207, [404,
  1]), (211, [406,1,5,1]), (209, [407,1]), (213, [413,1]), (214, [415,1]), (218, [422,1,2,1,4,1]),
  (217, [433,2]), (219, [439,1]), (2, [452,1,2,1,2,1,38,1]), (-97, [502,1]), (-56, [503,1]), (-130,
  [544,1,476,3]), (10795, [570,1]), (-163, [573,1]), (10792, [574,1]), (-195, [579,1]), (69, [580,
  1]), (71, [581,1]), (116, [895,1]), (38, [902,1]), (37, [904,3]), (64, [908,1,67827,51]), (63,
  [910,2]), (8, [975,1,4128,6]), (-7, [1017,1,7154,1]), (80, [1024,16]), (15, [1216,1]), (48,
  [1329,38,9897,48]), (7264, [4256,38,1,1,5,1]), (38864, [5024,80]), (-3008, [7312,43,2,3]), (-8,
  [7944,8,8,6,10,8,8,8,8,6,26,8,72,2,30,2,14,2]), (-74, [8122,2]), (-86, [8136,4]), (-100, [8154,
  2]), (-112, [8170,2]), (-128, [8184,2]), (-126, [8186,2]), (28, [8498,1]), (16, [8544,16]), (26,
  [9398,26]), (-10743, [11362,1]), (-3814, [11363,1]), (-10727, [11364,1]), (-10780, [11373,1]),
  (-10749, [11374,1]), (-10783, [11375,1]), (-10782, [11376,1]), (-10815, [11390,2]), (-35332,
  [42877,1]), (-42280, [42893,1]), (-42308, [42922,1,3,1]), (-42319, [42923,1]), (-42315, [42924,
  1]), (-42305, [42925,1]), (-42258, [42928,1]), (-42282, [42929,1]), (-42261, [42930,1]), (928,
  [42931,1]), (-48, [42948,1]), (-42307, [42949,1]), (-35384, [42950,1]), (40, [66560,40,136,36]),
  (39, [66928,11,1,15,1,7,1,2]), (34, [125184,34])]

def upperRuns : List CaseRun := CaseRun.ofShifts [
  (743, [181,1]), (-232, [305,1]), (-300, [383,1]), (-1, [453,1,2,1,2,1,38,1]), (84, [837,1]),
  (-31, [962,1]), (-62, [976,1]), (-57, [977,1]), (-47, [981,1]), (-54, [982,1]), (-86, [1008,1]),
  (-80, [1009,1]), (-96, [1013,1]), (-6254, [7296,1]), (-6253, [7297,1]), (-6244, [7298,1]),
  (-6242, [7299,2]), (-6243, [7301,1]), (-6236, [7302,1]), (-6181, [7303,1]), (35266, [7304,1]),
  (-59, [7835,1]), (-7205, [8126,1])]

def lowerRuns : List CaseRun := CaseRun.ofShifts [
  (1, [453,1,2,1,2,1,38,1]), (-60, [1012,1]), (-7615, [7838,1]), (-8, [8072,8,8,8,8,8]), (-9,
  [8124,1,15,1,47,1]), (-7517, [8486,1]), (-8383, [8490,1]), (-8262, [8491,1])]

/-- Letters with a small iota, mapped to the capital that an iota is written after. -/
def iotaRuns : List CaseRun := CaseRun.ofShifts [
  (-120, [8064,8]), (-128, [8072,8]), (-104, [8080,8]), (-112, [8088,8]), (-56, [8096,8]), (-64,
  [8104,8])]

def upperSpecial : List (Nat × List Nat) := [
  (223, [83, 83]), (329, [700, 78]), (496, [74, 780]), (912, [921, 776, 769]),
  (944, [933, 776, 769]), (1415, [1333, 1362]), (7830, [72, 817]), (7831, [84, 776]),
  (7832, [87, 778]), (7833, [89, 778]), (7834, [65, 702]), (8016, [933, 787]),
  (8018, [933, 787, 768]), (8020, [933, 787, 769]), (8022, [933, 787, 834]), (8114, [8122, 921]),
  (8115, [913, 921]), (8116, [902, 921]), (8118, [913, 834]), (8119, [913, 834, 921]),
  (8124, [913, 921]), (8130, [8138, 921]), (8131, [919, 921]), (8132, [905, 921]),
  (8134, [919, 834]), (8135, [919, 834, 921]), (8140, [919, 921]), (8146, [921, 776, 768]),
  (8147, [921, 776, 769]), (8150, [921, 834]), (8151, [921, 776, 834]), (8162, [933, 776, 768]),
  (8163, [933, 776, 769]), (8164, [929, 787]), (8166, [933, 834]), (8167, [933, 776, 834]),
  (8178, [8186, 921]), (8179, [937, 921]), (8180, [911, 921]), (8182, [937, 834]),
  (8183, [937, 834, 921]), (8188, [937, 921]), (64256, [70, 70]), (64257, [70, 73]),
  (64258, [70, 76]), (64259, [70, 70, 73]), (64260, [70, 70, 76]), (64261, [83, 84]),
  (64262, [83, 84]), (64275, [1348, 1350]), (64276, [1348, 1333]), (64277, [1348, 1339]),
  (64278, [1358, 1350]), (64279, [1348, 1341])]

def lowerSpecial : List (Nat × List Nat) := [(304, [105, 775])]

def cased : CharSet := .ofTexts [
  "Btq6qBb1a1415n1v1Ff144Fs1B072u5Co1B642224116113111k1Cb1Dv8Em1B29B5DAvB211512B714SoCe26CIi97B7",
  "23BsFcBsHq262B226281111111v2Bh1711331734264d5317D81d1gdCt1412a1135611111141641245541hw32WpBg",
  "BYeGd6432cB21151BHCyBaiuDoCu341Bn521115o513WtB71e6C8VRk7c5BCpq6qBH1C8CoB04B0D8b1f17121b1f1712",
  "Mj1231B619BHxBfdBfDF1BsXJ4BsBBTsCd1Bz122122241c11171Bt1428171s141511371Jg2p1p1v1p1v1p1v1p1v1p",
  "18BZ8a1k66H9BqCIyBwCEcq6q6q"]

def caseIgnorable : CharSet := .ofTexts [
  "B3161b1z111Bz141114122NzFc42419211Gz7Fr151BdB911121211B81b6ab11z1alg1Ct81a14x111urCjbBmb4121o",
  "oB73B817268B5BmBj111484137a2d1f1Bm14481k2q122Bl142422331u231b2Bl1451241k2m611Bm121148172b2u1",
  "Bp1c1Be131Bj113531472b2t1Bm1216152k2s2Bl24481k2t1C017311Ci127b9Cq1299117C12r11111Bje15125b1B0",
  "91Cu4161222p243g4d12261f1Cm1Qw3BAa3t2u2u2Bs217812b3151B95Bf1Bt2y1Da3429163G3221Bm1171111286a2",
  "1B318vBd4Bc1151151B49c2w42213Bk1123113Bm822Bs6Ca31d17416132BeBrd1yCtMd113b3d3d3d2c582a12125Bd",
  "51a11d1gdBfxDE32D53Dh1f1CowBb1N11B043551Cl6Cl3BEJy1BIq6Hi1Cq41a11s4C82eyC61n3Cv332813141p251",
  "E72qid1B28pbBa3Bc12422h1l2Bu62222c181z1b1Bf113225211r1e25211Cs593Dd12141VR41E3hPxg31cgy121Ep1",
  "7161b1z111Bb1B92Bv1l3O91Ga1E55BCl61B619Q631254B4341El2Px4Kr2C83BybBd4Df1BifB5122a3Bd4222141a1",
  "Be3B0518Bq1c2Bg9a421Cn321126121Ed138l2Bl231B1735Ff82311n1Cc6114212Gm46212r2Cd82112Cy1112611Ct",
  "32415H7912H421141E042241waB4624819623Bad12La71611Cam271212De631121711C023111Jn2b2Bg55111FSth6",
  "fOYa5Bn794BCr1BrhBs212RNf41712DLq214FAkBa2nP439g27u4E43CCzBj4Be81e1m51fBLs71h2712155Bqx1EgeK8",
  "1Bp4O35BBk7D18CXz5BGLMp1uCoDkGo"]

/-- The mapping of one character: its special one, or else the one to a single character. -/
def mapCase (special : List (Nat × List Nat)) (single : Option Char) (c : Char) : List Char :=
  match special.lookup c.toNat with
  | some cs => cs.map Char.ofNat
  | none => [single.getD c]

def upperChar (c : Char) : List Char :=
  if c.toNat < 0x80 then [c.toUpper]
  else
    match CaseRun.map? iotaRuns c with
    | some capital => [capital, 'Ι']
    | none => mapCase upperSpecial (CaseRun.mapBack? pairRuns c <|> CaseRun.map? upperRuns c) c

/-- Full lower-case mapping of one character, without regard to its neighbours. -/
def lowerChar (c : Char) : List Char :=
  if c.toNat < 0x80 then [c.toLower]
  else mapCase lowerSpecial (CaseRun.map? (pairRuns ++ lowerRuns) c) c

/-- Whether the first character that is not case-ignorable is a cased one. -/
def meetsCased (cs : List Char) : Bool :=
  match cs.dropWhile caseIgnorable.contains with
  | [] => false
  | c :: _ => cased.contains c

/-- Lower-cases `rest`; `before` holds the characters already passed, nearest first. -/
def lowerAfter (before : List Char) : List Char → List Char
  | [] => []
  | c :: rest =>
    let low :=
      if c == 'Σ' then
        if meetsCased before && !meetsCased rest then ['ς'] else ['σ']
      else lowerChar c
    low ++ lowerAfter (c :: before) rest

def toUpper (s : String) : String :=
  String.ofList (s.toList.flatMap upperChar)

def toLower (s : String) : String :=
  String.ofList (lowerAfter [] s.toList)

end LiveMarkup.Text
