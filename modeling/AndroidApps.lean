import AndroidApps.Lib.Loop
import AndroidApps.Lib.Stdio
import AndroidApps.Gildroia.KeySearch
import AndroidApps.Gildroia.KeySearchLaws
import AndroidApps.Gildroia.KeySearchWrap
import AndroidApps.Gildroia.Chosung
import AndroidApps.Gildroia.NameMatch
import AndroidApps.Gildroia.NameMatchLaws
import AndroidApps.Gildroia.Records
import AndroidApps.Gildroia.TextMng
import AndroidApps.Gildroia.SearchHelper
import AndroidApps.Gildroia.PoiName
import AndroidApps.Gildroia.PoiNameComplete
import AndroidApps.Gildroia.ChosungCollisions
import AndroidApps.Gildroia.PoiNameSound
import AndroidApps.Gildroia.OnePoiFile
import AndroidApps.Gildroia.PoiCursor
import AndroidApps.Gildroia.PoiCursorLaws
import AndroidApps.Gildroia.Address
import AndroidApps.Gildroia.HoPosition
import AndroidApps.Gildroia.Searches
import AndroidApps.Gildroia.HelperCalls
import AndroidApps.Gildroia.DongTable
import AndroidApps.Gildroia.HoPositionLaws
import AndroidApps.Gildroia.UmModule
import AndroidApps.Gildroia.SidoIndex
import AndroidApps.Gildroia.Browse
import AndroidApps.Gildroia.BrowseFrame
import AndroidApps.Gildroia.BrowseLaws
import AndroidApps.Gildroia.AdminBound
import AndroidApps.Gildroia.AdminBoundLaws
import AndroidApps.Gildroia.LocationCode
import AndroidApps.Gildroia.Download
import AndroidApps.Gildroia.DownloadLaws
import AndroidApps.Gildroia.ChainWalks
import AndroidApps.Gildroia.TextStore
import AndroidApps.Gildroia.TextStoreLaws
import AndroidApps.Gildroia.TextReload
import AndroidApps.Lib.JavaTextLaws
import AndroidApps.Lib.Utf8
import AndroidApps.TouchClient.SocketClient
import AndroidApps.TouchClient.Framing
import AndroidApps.CommonLib.SecureStorage
import AndroidApps.CommonLib.SecureStorageLaws
import AndroidApps.CommonLib.HdmiRules
import AndroidApps.Lib.Events
import AndroidApps.CommonLib.HdmiRulesLaws
import AndroidApps.CommonLib.HdmiNotification
import AndroidApps.CommonLib.HttpDownload
import AndroidApps.CommonLib.HttpDownloadLaws
import AndroidApps.TouchPc.DeviceConnector
import AndroidApps.Gildroia.ScreenStacks
import AndroidApps.TouchPc.Delivery
import AndroidApps.TouchPc.TouchEventHistory
import AndroidApps.CommonLib.LogcatProcess
import AndroidApps.CommonLib.LogcatLifecycle
import AndroidApps.CommonLib.ImageDownloader
import AndroidApps.Gildroia.DongOfOffset
import AndroidApps.Gildroia.BoundaryRings
import AndroidApps.Gildroia.BoundaryLoading
import AndroidApps.Gildroia.SigunguOfOffset
import AndroidApps.Gildroia.CatePoi
import AndroidApps.Gildroia.LHCode
import AndroidApps.Gildroia.MeshPoi
import AndroidApps.Gildroia.PoiBody
import AndroidApps.Gildroia.BunjiListing
import AndroidApps.Gildroia.ChainListing
import AndroidApps.Gildroia.TelUnion
import AndroidApps.Gildroia.ChosungCode
import AndroidApps.Gildroia.WideText
import AndroidApps.Gildroia.Tokens
import AndroidApps.Gildroia.TelNumber
import AndroidApps.CommonLib.HdmiMatching
import AndroidApps.TouchPc.EventLine
import AndroidApps.TouchPc.Discovery
import AndroidApps.TouchClient.Malformed
import AndroidApps.CommonLib.TagParser
import AndroidApps.CommonLib.TagAttributes
import AndroidApps.Gildroia.MaskPositions
import AndroidApps.CommonLib.HexCodec
import AndroidApps.CommonLib.FileMove
import AndroidApps.CommonLib.ReadBytes
import AndroidApps.Gildroia.FileListPath
import AndroidApps.CommonLib.SafeUrl
import AndroidApps.Gildroia.ReadBr
import AndroidApps.Gildroia.UIControls
import AndroidApps.Lib.Latch
import AndroidApps.Lib.Select
import AndroidApps.Gildroia.RegionNames
import AndroidApps.Gildroia.Gestures
import AndroidApps.Gildroia.CategoryScreens
import AndroidApps.Lib.CText
import AndroidApps.Gildroia.PoiSearches
import AndroidApps.Gildroia.CategoryResults
import AndroidApps.Gildroia.GpsThread
import AndroidApps.Gildroia.GpsLog
import AndroidApps.Lib.Levels
import AndroidApps.TouchClient.MainService
import AndroidApps.TouchClient.ServiceControl
import AndroidApps.CommonLib.FilesystemInfo
import AndroidApps.CommonLib.FilesystemWalk
import AndroidApps.Gildroia.AddressRows
import AndroidApps.Gildroia.AddressScreensLaws
import AndroidApps.TouchPc.Playback
import AndroidApps.TouchPc.PlaybackRounds
