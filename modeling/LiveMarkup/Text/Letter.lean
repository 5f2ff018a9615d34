import LiveMarkup.Text.CharSet

/-!
# Letters, numerals and word characters

The Unicode properties that names are built from: `Alphabetic`, the numeric categories
(decimal digits, letter numbers and other numbers), and the word characters of pattern matching
(letters, marks, decimal digits, connector punctuation and the two joiners). Below U+0080 the
classes are the familiar ASCII ones, so they are decided there without the tables.
-/

namespace LiveMarkup.Text

def alphabetic : CharSet := .ofTexts [
  "Btq6qBb1a1415n1v1Mq4ce57111Ce1B651224116113111k1Cb1Dv8Em1B2216B5B3e111212118r44tb5Bk17eCu1848",
  "43a321gBcdCtox92415o2jjp7b5o16hB6ac376C41g134fdj18222m17113438222211814215c2a14316422m1712121",
  "2454222417411h6b319131m17121539131231f4l44318222m171215382222924215d1g216331432111232333c4533",
  "133161B4d131n1g38131382132124s418131n1a15381313826214d3cd131B5281313115475m6131i3o19112786111",
  "8i2dBm5761Bf211151o111j13251161e4w1Br81B04j4g1B0BvBj1125gBsa42B211512B71J9142711142B5142x1427",
  "11142f1Bl142BvB1ggCe263R82h1q5C33b7kblckcd1312cBg2je141BvCh7B75Byav1c49nu25bB84qBis4Br2kBe1n2",
  "b3BdBg1f18BfB624aB81beBjm3aB0297B723B541612315FcB3ebHq262B226281111111v2Bh1711331734264d5317",
  "D81d1gdCt1412a1135611111141b245541hB5WlBgBYeGd6432cB211512Bk71gn97171717171717171wBb1N13p9752",
  "54Ce631Ci145B71CmhwBcgO8HB4BsXRhBvBa2Hh3ga2kBb583D5B392Cv2Bs521115ok1xoBgcBw11B863113ax5zdt3",
  "Bf1cf1gga51Bj9ein3Bx1111o32g24b6262697171B71e6DflLYccn4BdJAsK62CyB27c55c1d151112121D0xK3iBs2",
  "BiB4cD851DrB0q6qbCh36262623zc1q1j121f2eyDfBxBhHft3BdBbwdu5B75u2B04815B6EeiB04B04B48Bgcb1f1712",
  "1b1f1712BvIn9ma8o61B619Bx6211B812312nan9vBtj12amaqByBk62Bs41258131tB6t3tz81srBiamajdiD2C1BjBf",
  "dBfdB4JkB61232C6ta18mB6iBalrn9ByB75aBl91dpnBfh48z319Bs1492a111zi1y2164Bq711141f1a7Bln418222m1",
  "71215382222316157EcBu1314k3uBu2211F4Bi27p6yBr1131BnBi21Bzr2el7F5BlCvBsv82128121u122224Cl82Ba2",
  "61112rBf2ahC051iC1Hb91B91711Bdu2m1eC17121B83112131122o6121B1121411J3n9h1B533D31C7ZmCuD3hFgCV8",
  "CpfBDsh6EHtQ7JFtPt7vhC7huiBcg4vl5jT4BsDkC34Bl7hBs211c2eGOg8BIeB69JO7417121I3f1t321e48L0CM4Cz5",
  "d397a41GK9Cd1Bz122122241c11171Bt1428171s141511371Jg2p1p1v1p1v1p1v1p1v1p18BZ8v66Fx71h2712155Bq",
  "x1D4B9a7g1IxuiB8NgsV0714121f1FhBnBw3131BHg41r1211211a1411116141111113121121111111111211241714",
  "14111a1h53151hRgq6q6qDYuBTQowELe6G62GE2eHZlDI7P2BPuFH75EMg"]

/-- Characters of the categories `Nd`, `Nl` and `No`. -/
def numeric : CharSet := .ofTexts [
  "BcaDc25123BO1aDqaFiaLgaDaa46D0aDaaDaa26D2dD7a87CvaCw77jD1aCoaDaaBykHgaByaTzkYh3Gna6amaIcaDkb",
  "Ela6aF2aCeaDqa6aBD21366aFiBf25U6BoC6mRiuBMh1Vl1p9e3Jj4Duau81fwaB3fBFOgaF8aIw6EaaB2aFiamaCeaLa",
  "aWSuaNpB9cBlh2JhrB04t181Dq5FmaBA68p7B39C35m6Eg22g2BaBs9Bg2u3C35Cw8o8B57J66BcaI6vEeaB64D47Dqu",
  "DkaBoaE0a7kGzaJiaDaaKeaCuaCucLojClaV2tGbaByaLqaCulBDnD3TDdaCeaDqa17W6nBBK9kckD0pBEtBeCNsaLqa",
  "NyaBB19DkaVzBn1314C4B91fBAqdCZfa"]

/-- Word characters that are not letters: marks, decimal digits, connectors and joiners. -/
def wordExtra : CharSet := .ofTexts [
  "BcaB11SoBx1B6Hn7HbvEo17aD92933aBybD9ax991q2j1B73Bo8B6ac286C41g134haC41g1oae1Bp1g1oaC41g1oad3",
  "Bo1g171gaCl1oaC41g1oaC41g1oaC32g1oaCi1raCf6111aCo1d5111aBq26ab1111142Bw112Bq1D41125aByaTn3BAc",
  "2u1Dj2jb912ax31bHz3aaDkaDq1k82b6amf2bCw1f1bah9Bi24aB81b2Bv18a6aDa31l416123FiB3ebOk2Bd2j1Dfx",
  "DHa3Dx1Sy6Cx2BGDpaBx492D62Ho1B11E71ba6ieax3B11Cn1c1famaCeaCt111Bg1Gt22aWLaggg32o3FcaB11Th1Ga1",
  "MfaBNi341El2Q9aMj3BybBd4Fc1vbe1Bl2BhaBl21aBf1C41843aCj2Ey25aBt2g1o735Fp1319a41Cr2caGd2Di1gaCk",
  "28aCp14aH32ElaCb241caDq1Ca2i1C82Lp1gaGg112aaBp18aLb2daFSm16fOUaaCeaB25Bn7paBGa1UZk1FAqBa2nP25",
  "368827u4E43BNdBeO8Bj4Be81e1m51fBU879aJw1BpeNueBBa7D13135aFC6aBGJP2Go"]

/-- A letter, in the sense of the property `Alphabetic`. -/
def isAlphabetic (c : Char) : Bool :=
  if c.toNat < 0x80 then c.isAlpha else alphabetic.contains c

/-- A numeral: a decimal digit, a letter number or another number such as a superscript. -/
def isNumeric (c : Char) : Bool :=
  if c.toNat < 0x80 then c.isDigit else numeric.contains c

def isAlphanumeric (c : Char) : Bool :=
  isAlphabetic c || isNumeric c

def isWord (c : Char) : Bool :=
  if c.toNat < 0x80 then c.isAlphanum || c == '_' else alphabetic.contains c || wordExtra.contains c

end LiveMarkup.Text
